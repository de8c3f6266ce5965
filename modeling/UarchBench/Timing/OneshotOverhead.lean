import UarchBench.Base.Once
import UarchBench.Registration.OneshotMaker

/-! The overhead of oneshot benchmarks. A calibration is a static local of its function: one for each
timer, number of samples and method. -/
namespace UarchBench.Timing
open Base Registration

/-- Samples that the calibration ignores. -/
abbrev oneshotOverheadWarmup : ℕ := 3
abbrev oneshotOverheadReal : ℕ := 11
abbrev oneshotOverheadTotal : ℕ := oneshotOverheadWarmup+oneshotOverheadReal

/-- The two parameters of `benchToOverhead_` that a timer leaves. -/
structure CalibrationKey (μ : Type) where
  samples : ℕ
  method : Method μ
  deriving DecidableEq

/-- A registered benchmark with the number of its samples. -/
structure OneshotEntry (μ ρ σ α δ : Type) where
  samples : ℕ
  bench : OneshotBench μ ρ (StateM σ δ) (ArgProvider σ α)

section Overhead
variable {μ ρ σ α δ κ : Type} [DecidableEq μ] [LT κ] [DecidableLT κ] (T : Timer δ κ) (S : Sorter δ)

/-- There are samples behind the warmup, so that a median exists. -/
lemma median_calibration (raw : Samples δ oneshotOverheadTotal) :
    ∃ d, T.median S (raw.toList.drop oneshotOverheadWarmup) = .ok d := by
  refine medianf_ok S T.less (List.ne_nil_of_length_pos ?_)
  rw [List.length_drop,List.Vector.toList_length]
  decide

/-- The value of `rawToOverhead`. -/
def rawToOverhead (raw : Samples δ oneshotOverheadTotal) : δ :=
  (T.median S (raw.toList.drop oneshotOverheadWarmup)).toOption.get (by
    obtain ⟨d,hd⟩ := median_calibration T S raw
    rw [hd]
    rfl)

lemma median_rawToOverhead (raw : Samples δ oneshotOverheadTotal) :
    T.median S (raw.toList.drop oneshotOverheadWarmup) = .ok (rawToOverhead T S raw) := by
  obtain ⟨d,hd⟩ := median_calibration T S raw
  simp only [rawToOverhead,hd]
  rfl

variable (now : StateM σ δ) (code : Method μ → Bench2 σ α)
  (rawCode : (samples : ℕ) → ρ → UInt64 → α → StateM σ (Samples δ samples)) (nullptr : α)

/-- The samples of a calibration. -/
def calibrationSamples (key : CalibrationKey μ) : StateM σ (Samples δ oneshotOverheadTotal) :=
  oneshotBench T now oneshotOverheadTotal (code key.method) inlinedEmpty inlinedEmpty 0 nullptr

def calibrate (key : CalibrationKey μ) : StateM σ δ := do
  return rawToOverhead T S (← calibrationSamples T now code nullptr key)

/-- The function that a benchmark calls for its overhead. -/
def overheadOf (e : OneshotEntry μ ρ σ α δ) : StateM (Once σ (CalibrationKey μ) δ) δ :=
  match e.bench.overheadFunc with
  | .benchToOverhead method _ => Once.request (calibrate T S now code nullptr) ⟨e.samples,method⟩
  | .function f => Once.lift f

/-- A benchmark, over the static locals of the calibrations. -/
def OneshotEntry.toRun (e : OneshotEntry μ ρ σ α δ) :
    OneshotRun (Once σ (CalibrationKey μ) δ) α δ e.samples where
  loopCount := e.bench.loopCount
  rawFunc loopCount arg :=
    Once.lift (e.bench.rawFunc.call T now code (rawCode e.samples) loopCount arg)
  argProvider := ⟨Once.lift e.bench.argProvider.make,fun arg => Once.lift (e.bench.argProvider.free arg)⟩
  overheadFunc := some (overheadOf T S now code nullptr e)

/-- The benchmarks of a process, one after the other. -/
def runOneshots (entries : List (OneshotEntry μ ρ σ α δ)) :
    StateM (Once σ (CalibrationKey μ) δ) (List (Except String (Printed δ))) :=
  entries.mapM (fun e => (e.toRun T S now code rawCode nullptr).runAndPrintInner T S)

/-- The calibration that a benchmark asks for. -/
def OneshotEntry.asked (e : OneshotEntry μ ρ σ α δ) : List (CalibrationKey μ) :=
  match e.bench.overheadFunc with
  | .benchToOverhead method _ => [⟨e.samples,method⟩]
  | .function _ => []

/-- The raw samples of a benchmark, without the static locals. -/
def OneshotEntry.measure (e : OneshotEntry μ ρ σ α δ) : StateM σ (Samples δ e.samples) := do
  let arg ← e.bench.argProvider.make
  let raw ← e.bench.rawFunc.call T now code (rawCode e.samples) e.bench.loopCount.toUInt64 arg
  e.bench.argProvider.free arg
  return raw

/-- What a benchmark does, with the calibrations in front of it. -/
def OneshotEntry.acts (used : List (CalibrationKey μ)) (e : OneshotEntry μ ρ σ α δ) :
    List (Act σ (CalibrationKey μ)) :=
  .other (fun w => (e.measure T now code rawCode w).2)::
    match e.bench.overheadFunc with
    | .benchToOverhead method _ => Once.requestActs σ used ⟨e.samples,method⟩
    | .function f => [.other (fun w => (f w).2)]

/-- What a process does: the samples of each benchmark are taken, and behind them its calibration if
no benchmark in front of it has asked for the same one. -/
def oneshotActs (entries : List (OneshotEntry μ ρ σ α δ)) : List (Act σ (CalibrationKey μ)) :=
  Once.schedule (OneshotEntry.acts T now code rawCode) [] entries

/-- What a benchmark prints if it starts in some world: its samples less the one calibration of its
key, or less what the function of its own gives. -/
def PrintsLessOverhead (e : OneshotEntry μ ρ σ α δ) (w : σ) (printed : Except String (Printed δ))
    (s : Once σ (CalibrationKey μ) δ) : Prop :=
  ∃ overhead, printed = printSamples T S
      (subtractOverhead T overhead (e.measure T now code rawCode w).1).toList ∧
    match e.bench.overheadFunc with
    | .benchToOverhead method _ => s.get? ⟨e.samples,method⟩ = some overhead
    | .function f => overhead = (f (e.measure T now code rawCode w).2).1

/-- The value is the median of the samples behind the warmup that are taken in some world. -/
def Calibrates (key : CalibrationKey μ) (overhead : δ) : Prop :=
  ∃ w, T.median S (((calibrationSamples T now code nullptr key w).1.toList).drop
    oneshotOverheadWarmup) = .ok overhead

omit [DecidableEq μ] in
lemma calibrate_calibrates (key : CalibrationKey μ) (w : σ) :
    Calibrates T S now code nullptr key (calibrate T S now code nullptr key w).1 :=
  ⟨w,median_rawToOverhead T S _⟩

section Run
variable {T S now code rawCode nullptr}

/-- One benchmark of a process. -/
lemma toRun_eq (e : OneshotEntry μ ρ σ α δ) (s : Once σ (CalibrationKey μ) δ) :
    let s' : Once σ (CalibrationKey μ) δ := ⟨(e.measure T now code rawCode s.world).2,s.results⟩
    (e.toRun T S now code rawCode nullptr).runAndPrintInner T S s =
      (printSamples T S (subtractOverhead T (overheadOf T S now code nullptr e s').1
        (e.measure T now code rawCode s.world).1).toList,
        (overheadOf T S now code nullptr e s').2) := rfl

lemma toRun_after (e : OneshotEntry μ ρ σ α δ) (s : Once σ (CalibrationKey μ) δ) :
    ((e.toRun T S now code rawCode nullptr).runAndPrintInner T S s).2 =
      Once.after (calibrate T S now code nullptr) (e.acts T now code rawCode s.keys) s := by
  rw [toRun_eq,overheadOf,OneshotEntry.acts]
  cases e.bench.overheadFunc with
  | benchToOverhead method name => exact Once.request_after ..
  | function f => rfl

lemma toRun_prints (e : OneshotEntry μ ρ σ α δ) (s : Once σ (CalibrationKey μ) δ) :
    PrintsLessOverhead T S now code rawCode e s.world
      ((e.toRun T S now code rawCode nullptr).runAndPrintInner T S s).1
      ((e.toRun T S now code rawCode nullptr).runAndPrintInner T S s).2 := by
  rw [toRun_eq]
  refine ⟨_,rfl,?_⟩
  rw [overheadOf]
  cases e.bench.overheadFunc with
  | benchToOverhead method name => exact Once.get?_request ..
  | function f => rfl

/-- What a benchmark has subtracted is still there when others have run. -/
lemma PrintsLessOverhead.mono {e : OneshotEntry μ ρ σ α δ} {w : σ}
    {printed : Except String (Printed δ)} {s s' : Once σ (CalibrationKey μ) δ}
    (h : PrintsLessOverhead T S now code rawCode e w printed s) (hkept : s.results <+: s'.results) :
    PrintsLessOverhead T S now code rawCode e w printed s' := by
  obtain ⟨overhead,hprinted,hvalue⟩ := h
  refine ⟨overhead,hprinted,?_⟩
  cases hfunc : e.bench.overheadFunc with
  | benchToOverhead method name =>
    rw [hfunc] at hvalue
    exact List.IsPrefix.lookup_eq_some hkept hvalue
  | function f =>
    rw [hfunc] at hvalue
    exact hvalue

end Run

omit [LT κ] [DecidableLT κ] in
lemma acts_keys (used : List (CalibrationKey μ)) (e : OneshotEntry μ ρ σ α δ) :
    used.eraseDups ++ (e.acts T now code rawCode used.eraseDups).filterMap Act.key =
      (used ++ e.asked).eraseDups := by
  rw [OneshotEntry.acts,OneshotEntry.asked]
  cases e.bench.overheadFunc with
  | benchToOverhead method name => exact Once.requestActs_keys _ used
  | function f => rw [List.append_nil]; exact List.append_nil _

omit [LT κ] [DecidableLT κ] in
/-- The calibrations that are measured in a process. -/
theorem oneshotActs_keys (entries : List (OneshotEntry μ ρ σ α δ)) :
    (oneshotActs T now code rawCode entries).filterMap Act.key =
      (entries.flatMap OneshotEntry.asked).eraseDups :=
  Once.schedule_keys (acts_keys T now code rawCode) [] entries

/-- A process does to the world what its schedule says and nothing else: the samples of each benchmark
in order, and every calibration that one asks for once, in the order in which they are first asked for.
The value of a calibration is the median of its samples, and a benchmark prints the samples that it
takes less the value of its calibration. -/
theorem runOneshots_once (entries : List (OneshotEntry μ ρ σ α δ)) (w : σ) :
    let acts := oneshotActs T now code rawCode
    let behind := fun front => Once.after (calibrate T S now code nullptr) (acts front) ⟨w,[]⟩
    let run := runOneshots T S now code rawCode nullptr entries ⟨w,[]⟩
    run.2 = behind entries ∧
    (acts entries).filterMap Act.key = (entries.flatMap OneshotEntry.asked).eraseDups ∧
    run.2.keys = (entries.flatMap OneshotEntry.asked).eraseDups ∧
    (∀ e ∈ run.2.results, Calibrates T S now code nullptr e.1 e.2) ∧
    run.1.length = entries.length ∧
    ∀ front e rest, entries = front ++ e::rest → ∃ printed, run.1[front.length]? = some printed ∧
      PrintsLessOverhead T S now code rawCode e (behind front).world printed run.2 := by
  intro acts behind run
  have hrun : ∀ front, (runOneshots T S now code rawCode nullptr front ⟨w,[]⟩).2 = behind front :=
    fun front => Once.mapM_after toRun_after front ⟨w,[]⟩
  have hkeys := oneshotActs_keys T now code rawCode entries
  refine ⟨hrun entries,hkeys,?_,?_,Once.length_mapM entries _,fun front e rest hsplit => ?_⟩
  · rw [hrun,← hkeys]
    exact Once.keys_after _
  · rw [hrun]
    exact Once.all_after (calibrate_calibrates T S now code nullptr) (List.forall_mem_nil _) _
  · subst hsplit
    refine ⟨_,Once.getElem?_mapM front e rest _,?_⟩
    rw [← hrun front]
    exact (toRun_prints e _).mono (Once.results_mapM toRun_after front e rest _)

end Overhead

/-- The machine records the methods that it runs. -/
def recordedCode (method : Method ℕ) : Bench2 (List (Method ℕ)) Unit := fun _ _ => modify (method::·)

/-- A benchmark with the overhead that is used if nothing else is given. -/
def recordedEntry (samples name : ℕ) : OneshotEntry ℕ Empty (List (Method ℕ)) Unit Int64 where
  samples := samples
  bench := ⟨1,.bench (.method name) .inlinedEmpty .inlinedEmpty,.inl (.method name),
    ⟨pure (),fun _ => pure ()⟩,OneshotMaker.defaultOverhead⟩

/-- Three benchmarks, two of them with as many samples, need two calibrations. -/
theorem runOneshots_once_recorded :
    let entries := [recordedEntry 2 7,recordedEntry 2 8,recordedEntry 3 9]
    let run := runOneshots clockTimer (mergeSorter Int64) (pure 0) recordedCode (fun _ => nofun) ()
      entries ⟨[],[]⟩
    run.2.keys = [⟨2,.dummyBench⟩,⟨3,.dummyBench⟩] ∧
      run.2.world.count .dummyBench = 2*oneshotOverheadTotal ∧ run.1.length = 3 := by
  obtain ⟨-,-,hkeys,-,hlength,-⟩ := runOneshots_once clockTimer (mergeSorter Int64) (pure 0)
    recordedCode (fun _ => nofun) () [recordedEntry 2 7,recordedEntry 2 8,recordedEntry 3 9] []
  exact ⟨hkeys.trans (by decide),by decide,hlength⟩

end UarchBench.Timing
