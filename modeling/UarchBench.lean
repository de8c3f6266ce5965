import UarchBench.Memory.ShuffledRegion
import UarchBench.Memory.StoragePool
import UarchBench.Memory.PageRange
import UarchBench.Memory.LoadBench
import UarchBench.Memory.TouchLines
import UarchBench.Memory.FlushCaches
import UarchBench.Memory.StridedStores
import UarchBench.Memory.AddIndirect
import UarchBench.Memory.AlignedBuf
import UarchBench.Memory.PageRatios
import UarchBench.Memory.MulChain
import UarchBench.Memory.MakeList
import UarchBench.Kernels.Bandwidth
import UarchBench.Kernels.Interleaved
import UarchBench.Kernels.ParallelMem
import UarchBench.Kernels.TlbFencing
import UarchBench.Kernels.ParallelMiss
import UarchBench.Kernels.JmpLoop
import UarchBench.Kernels.Dendibakh
import UarchBench.Timing.Timer
import UarchBench.Timing.Delta
import UarchBench.Timing.Oneshot
import UarchBench.Timing.SimpleTimer
import UarchBench.Timing.Calibration
import UarchBench.Timing.Libpfc
import UarchBench.Timing.Stats
import UarchBench.Registration.DeltaMaker
import UarchBench.Registration.OneshotMaker
import UarchBench.Perf.Events
import UarchBench.Perf.Init
import UarchBench.Perf.AttrString
import UarchBench.Perf.Pfm4Events
import UarchBench.Selection.Run
import UarchBench.Selection.StrayBackslash
import UarchBench.Selection.TagVerdict
import UarchBench.Selection.NoRegex
import UarchBench.Selection.PrintBenches
import UarchBench.Util.ResultTable
import UarchBench.Util.TableObjects
import UarchBench.Host.Launcher
import UarchBench.Host.SelectedTimer
import UarchBench.Timing.OneshotOverhead
import UarchBench.Kernels.LoadAlloc
import UarchBench.Timing.RawAdapt
import UarchBench.Kernels.Retpoline
import UarchBench.Kernels.CallBenches
import UarchBench.Kernels.DualJumps
import UarchBench.Kernels.ForwardJumps
import UarchBench.Memory.ListOfLists
import UarchBench.Timing.ExtraEvents
