import Mathlib.Tactic.SplitIfs
import Mathlib.Data.List.Basic

/-! Benchmarks and their groups, as the registration functions build them. -/
namespace UarchBench.Registration

/-- The ISA features a benchmark may require. -/
inductive X86Feature where
  | sse3 | pclmulqdq | vmx | smx | est | tm2 | ssse3 | fma | cx16 | sse4_1 | sse4_2 | movbe
  | popcnt | aes | avx | rdrnd | tsc_adj | sgx | bmi1 | hle | avx2 | bmi2 | erms | rtm | mpx
  | pqe | avx512f | avx512dq | rdseed | adx | avx512ifma | pcommit | clflushopt | clwb
  | intel_pt | avx512pf | avx512er | avx512cd | sha | avx512bw | avx512vl
  deriving DecidableEq, Repr

/-- What a benchmark reads of the group that it points to. -/
structure GroupRef where
  id : String
  desc : String
  deriving DecidableEq, Repr

structure BenchArgs where
  parent : GroupRef
  id : String
  description : String
  tags : List String
  features : List X86Feature
  opsPerLoop : UInt32
  deriving DecidableEq, Repr

/-- `BenchmarkBase` with the members `ι` of the class derived from it. -/
structure Benchmark (ι : Type) where
  args : BenchArgs
  impl : ι

namespace Benchmark
variable {ι : Type}

def getId (b : Benchmark ι) : String := b.args.id
def getTags (b : Benchmark ι) : List String := b.args.tags
def getFeatures (b : Benchmark ι) : List X86Feature := b.args.features
def getGroup (b : Benchmark ι) : GroupRef := b.args.parent
def getPath (b : Benchmark ι) : String := b.getGroup.id ++ "/" ++ b.getId

end Benchmark

/-- `BenchmarkGroup`. -/
structure BenchmarkGroup (ι : Type) extends GroupRef where
  benches : List (Benchmark ι)

/-- `BenchmarkGroup::add` of one benchmark. -/
def BenchmarkGroup.add {ι : Type} (group : BenchmarkGroup ι) (bench : Benchmark ι) :
    Except String (BenchmarkGroup ι) :=
  if (group.benches.find? (fun o => bench.getId = o.getId)).isSome then
    .error ("duplicate test ID: " ++ bench.getId)
  else .ok {group with benches := group.benches ++ [bench]}

lemma BenchmarkGroup.add_ok {ι : Type} {group group' : BenchmarkGroup ι} {bench : Benchmark ι}
    (h : group.add bench = .ok group') : group'.benches = group.benches ++ [bench] := by
  rw [BenchmarkGroup.add] at h
  split_ifs at h
  cases h
  rfl

lemma BenchmarkGroup.add_new {ι : Type} {group : BenchmarkGroup ι} {bench : Benchmark ι}
    (h : ∀ o ∈ group.benches, bench.getId ≠ o.getId) :
    group.add bench = .ok {group with benches := group.benches ++ [bench]} := by
  have hnone : group.benches.find? (fun o => bench.getId = o.getId) = none :=
    List.find?_eq_none.mpr (fun o ho => by simpa using h o ho)
  rw [BenchmarkGroup.add,hnone]
  rfl

end UarchBench.Registration
