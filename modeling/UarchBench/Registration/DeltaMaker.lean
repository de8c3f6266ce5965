import UarchBench.Registration.MakerBase
import UarchBench.Timing.Delta

/-! The maker of delta benchmarks. Whether it uses the loop delta is part of its type, and the
setters, inherited from a base that only knows the default instance, return that instance. -/
namespace UarchBench.Registration
open Base Timing

/-- The instances of the functions of `DeltaAlgo` that a benchmark may hold. -/
inductive DeltaRawFunc (μ : Type) where
  | deltaLoopBench (benchMethod : Method μ)
  | deltaBench (benchMethod baseMethod : Method μ)
  deriving DecidableEq, Repr

/-- The call of a raw function, given the code of the methods. -/
def DeltaRawFunc.call {μ σ α δ κ : Type} (T : Timer δ κ) (now : StateM σ δ)
    (code : Method μ → Bench2 σ α) : DeltaRawFunc μ → UInt64 → α → StateM σ (DeltaRaw δ)
  | .deltaLoopBench benchMethod => Timing.deltaLoopBench T now (code benchMethod)
  | .deltaBench benchMethod baseMethod =>
    Timing.deltaBench T now (code benchMethod) (code baseMethod)

/-- The members of `BenchTemplate<TIMER, DeltaAlgo<TIMER>>`. -/
structure BenchTemplate (μ α : Type) where
  loopCount : UInt64
  rawFunc : DeltaRawFunc μ
  argProvider : α

abbrev DeltaBenchmark (μ α : Type) := Benchmark (BenchTemplate μ α)

/-- `DeltaMaker<TIMER, use_loop_delta>` has no state of its own. -/
structure DeltaMaker (useLoopDelta : Bool) extends MakerBase

namespace DeltaMaker
variable {uld : Bool}

def defaultLoopCount : UInt32 := 10000

def construct (uld : Bool) (parent : GroupRef) (loopCount : UInt32 := defaultLoopCount) :
    DeltaMaker uld := ⟨MakerBase.construct parent loopCount⟩

/-- The converting constructor copies the base object. -/
def convert (uld' : Bool) (rhs : DeltaMaker uld) : DeltaMaker uld' := ⟨rhs.toMakerBase⟩

/-- The setters of `MakerBase<TIMER, DeltaMaker<TIMER>>`. -/
def setTags (maker : DeltaMaker uld) (tags : List String) : DeltaMaker false :=
  ⟨maker.toMakerBase.setTags tags⟩

def setLoopCount (maker : DeltaMaker uld) (loopCount : UInt32) : DeltaMaker false :=
  ⟨maker.toMakerBase.setLoopCount loopCount⟩

def setFeatures (maker : DeltaMaker uld) (features : List X86Feature) : DeltaMaker false :=
  ⟨maker.toMakerBase.setFeatures features⟩

def useLoopDelta (maker : DeltaMaker uld) : DeltaMaker true := maker.convert true

variable {μ α : Type}

def makeBenchFromRaw (maker : DeltaMaker uld) (id description : String) (opsPerLoop : UInt32)
    (rawFunc : DeltaRawFunc μ) (argProvider : α) : DeltaBenchmark μ α :=
  ⟨maker.makeArgs id description opsPerLoop,maker.loopCount.toUInt64,rawFunc,argProvider⟩

/-- `make_only`. -/
def makeOnly (maker : DeltaMaker uld) (benchMethod : Method μ) (id description : String)
    (opsPerLoop : UInt32) (argProvider : α) (baseMethod : Method μ := .dummyBench) :
    DeltaBenchmark μ α :=
  maker.makeBenchFromRaw id description opsPerLoop
    (if uld then .deltaLoopBench benchMethod else .deltaBench benchMethod baseMethod) argProvider

/-- `make` adds the benchmark to the maker's group. -/
def make (maker : DeltaMaker uld) (group : BenchmarkGroup (BenchTemplate μ α))
    (benchMethod : Method μ) (id description : String) (opsPerLoop : UInt32) (argProvider : α)
    (baseMethod : Method μ := .dummyBench) : Except String (BenchmarkGroup (BenchTemplate μ α)) :=
  group.add (maker.makeOnly benchMethod id description opsPerLoop argProvider baseMethod)

end DeltaMaker

/-- The steps of a chain. A step may also store the maker in a variable, which converts it to the
type of the variable. -/
inductive DeltaCall where
  | setTags (tags : List String)
  | setLoopCount (loopCount : UInt32)
  | setFeatures (features : List X86Feature)
  | useLoopDelta
  | store (uld : Bool)
  deriving DecidableEq, Repr

/-- A maker of either type. -/
abbrev AnyDeltaMaker := (uld : Bool) × DeltaMaker uld

namespace DeltaCall

def apply (maker : AnyDeltaMaker) : DeltaCall → AnyDeltaMaker
  | setTags tags => ⟨false,maker.2.setTags tags⟩
  | setLoopCount loopCount => ⟨false,maker.2.setLoopCount loopCount⟩
  | setFeatures features => ⟨false,maker.2.setFeatures features⟩
  | useLoopDelta => ⟨true,maker.2.useLoopDelta⟩
  | store uld => ⟨uld,maker.2.convert uld⟩

def tags? : DeltaCall → Option (List String)
  | setTags tags => some tags
  | _ => none

def loopCount? : DeltaCall → Option UInt32
  | setLoopCount loopCount => some loopCount
  | _ => none

def features? : DeltaCall → Option (List X86Feature)
  | setFeatures features => some features
  | _ => none

/-- The flag in the type of the result. -/
def resultFlag : DeltaCall → Bool
  | useLoopDelta => true
  | store uld => uld
  | _ => false

end DeltaCall

/-- The maker at the end of a chain that starts with `DeltaMaker<TIMER>(parent, loop_count)`. -/
def deltaChain (parent : GroupRef) (loopCount : UInt32) (calls : List DeltaCall) : AnyDeltaMaker :=
  calls.foldl DeltaCall.apply ⟨false,DeltaMaker.construct false parent loopCount⟩

section Chain
variable (parent : GroupRef) (loopCount : UInt32) (calls : List DeltaCall)

lemma deltaChain_parent : (deltaChain parent loopCount calls).2.parent = parent := by
  have h := foldl_lastWrite DeltaCall.apply (fun m => m.2.parent) (fun _ => none)
    (fun m call => by cases call <;> rfl) calls ⟨false,DeltaMaker.construct false parent loopCount⟩
  rw [deltaChain,h,lastWrite,List.filterMap_none]
  rfl

lemma deltaChain_tags :
    (deltaChain parent loopCount calls).2.tags = lastWrite DeltaCall.tags? calls [] :=
  foldl_lastWrite DeltaCall.apply (fun m => m.2.tags) _ (fun m call => by cases call <;> rfl)
    calls _

lemma deltaChain_loopCount :
    (deltaChain parent loopCount calls).2.loopCount =
      lastWrite DeltaCall.loopCount? calls loopCount :=
  foldl_lastWrite DeltaCall.apply (fun m => m.2.loopCount) _ (fun m call => by cases call <;> rfl)
    calls _

lemma deltaChain_features :
    (deltaChain parent loopCount calls).2.features = lastWrite DeltaCall.features? calls [] :=
  foldl_lastWrite DeltaCall.apply (fun m => m.2.features) _ (fun m call => by cases call <;> rfl)
    calls _

/-- Only the last call decides on the type. -/
lemma deltaChain_flag :
    (deltaChain parent loopCount calls).1 =
      (calls.getLast?.map DeltaCall.resultFlag).getD false := by
  induction calls using List.reverseRecOn with
  | nil => rfl
  | append_singleton calls call ih =>
    rw [deltaChain,List.foldl_append,List.getLast?_concat]
    cases call <;> rfl

end Chain

/-- What the benchmark of a chain should carry: the settings of the last calls that set them, and
the loop delta if it was asked for at all. -/
structure DeltaBuilderLaw {μ α : Type} (parent : GroupRef) (loopCount : UInt32)
    (calls : List DeltaCall) (benchMethod baseMethod : Method μ) (id description : String)
    (opsPerLoop : UInt32) (argProvider : α) (bench : DeltaBenchmark μ α) : Prop where
  args : bench.args = ⟨parent,id,description,lastWrite DeltaCall.tags? calls [],
    lastWrite DeltaCall.features? calls [],opsPerLoop⟩
  loopCount : bench.impl.loopCount = (lastWrite DeltaCall.loopCount? calls loopCount).toUInt64
  argProvider : bench.impl.argProvider = argProvider
  rawFunc : bench.impl.rawFunc =
    if DeltaCall.useLoopDelta ∈ calls then .deltaLoopBench benchMethod
    else .deltaBench benchMethod baseMethod

/-- `useLoopDelta` occurs in the chain exactly if its last call gives a maker with the flag. -/
def LoopDeltaKept (calls : List DeltaCall) : Prop :=
  DeltaCall.useLoopDelta ∈ calls ↔
    calls.getLast? = some .useLoopDelta ∨ calls.getLast? = some (.store true)

instance (calls : List DeltaCall) : Decidable (LoopDeltaKept calls) :=
  inferInstanceAs (Decidable (_ ↔ _))

lemma resultFlag_last (calls : List DeltaCall) :
    (calls.getLast?.map DeltaCall.resultFlag).getD false = true ↔
      calls.getLast? = some .useLoopDelta ∨ calls.getLast? = some (.store true) := by
  rcases calls.getLast? with _ | call
  · simp
  · cases call <;> simp [DeltaCall.resultFlag]

section Law
variable {μ α : Type} (parent : GroupRef) (loopCount : UInt32) (calls : List DeltaCall)
  (benchMethod baseMethod : Method μ) (id description : String) (opsPerLoop : UInt32)
  (argProvider : α)

/-- The benchmark that `make_only` returns at the end of a chain. -/
def deltaChainBench : DeltaBenchmark μ α :=
  (deltaChain parent loopCount calls).2.makeOnly benchMethod id description opsPerLoop argProvider
    baseMethod

lemma deltaChainBench_args :
    (deltaChainBench parent loopCount calls benchMethod baseMethod id description opsPerLoop
      argProvider).args = ⟨parent,id,description,lastWrite DeltaCall.tags? calls [],
        lastWrite DeltaCall.features? calls [],opsPerLoop⟩ := by
  have hargs : (deltaChainBench parent loopCount calls benchMethod baseMethod id description
      opsPerLoop argProvider).args =
    (deltaChain parent loopCount calls).2.makeArgs id description opsPerLoop := rfl
  rw [hargs,MakerBase.makeArgs,deltaChain_parent,deltaChain_tags,deltaChain_features]

lemma deltaChainBench_rawFunc :
    (deltaChainBench parent loopCount calls benchMethod baseMethod id description opsPerLoop
      argProvider).impl.rawFunc =
        if (deltaChain parent loopCount calls).1 then .deltaLoopBench benchMethod
        else .deltaBench benchMethod baseMethod := rfl

/-- The settings always survive; the loop delta survives exactly if its call, or a conversion back
to its type, comes last. -/
theorem deltaChainBench_law_iff :
    DeltaBuilderLaw parent loopCount calls benchMethod baseMethod id description opsPerLoop
        argProvider (deltaChainBench parent loopCount calls benchMethod baseMethod id description
          opsPerLoop argProvider) ↔ LoopDeltaKept calls := by
  have hflag := resultFlag_last calls
  rw [← deltaChain_flag parent loopCount] at hflag
  rw [LoopDeltaKept,← hflag]
  constructor
  · rintro ⟨-,-,-,hraw⟩
    rw [deltaChainBench_rawFunc] at hraw
    split_ifs at hraw with h₁ h₂ h₂
    · exact iff_of_true h₂ h₁
    · exact iff_of_false h₂ h₁
  · intro hkept
    refine ⟨deltaChainBench_args _ _ _ _ _ _ _ _ _,?_,rfl,?_⟩
    · rw [← deltaChain_loopCount parent loopCount calls]
      rfl
    · rw [deltaChainBench_rawFunc]
      exact if_congr hkept.symm rfl rfl

/-- A kept loop delta makes the benchmark run its method against itself with twice the count. -/
theorem deltaChainBench_call {σ δ κ β : Type} (T : Timer δ κ) (now : StateM σ δ)
    (code : Method μ → Bench2 σ β) (hkept : LoopDeltaKept calls)
    (hcall : DeltaCall.useLoopDelta ∈ calls) :
    (deltaChainBench parent loopCount calls benchMethod baseMethod id description opsPerLoop
      argProvider).impl.rawFunc.call T now code =
        Timing.deltaLoopBench T now (code benchMethod) := by
  have hlaw := (deltaChainBench_law_iff parent loopCount calls benchMethod baseMethod id
    description opsPerLoop argProvider).mpr hkept
  rw [hlaw.rawFunc,if_pos hcall]
  rfl

end Law

/-- The builder law of `DeltaMaker`, for the benchmark that `make_only` returns and for the one
that `make` adds to the group. -/
theorem deltaMaker_law_iff {μ α : Type} (group : BenchmarkGroup (BenchTemplate μ α))
    (loopCount : UInt32) (calls : List DeltaCall) (benchMethod baseMethod : Method μ)
    (id description : String) (opsPerLoop : UInt32) (argProvider : α) :
    (DeltaBuilderLaw group.toGroupRef loopCount calls benchMethod baseMethod id description
        opsPerLoop argProvider ((deltaChain group.toGroupRef loopCount calls).2.makeOnly
          benchMethod id description opsPerLoop argProvider baseMethod) ↔ LoopDeltaKept calls) ∧
    ∀ group', (deltaChain group.toGroupRef loopCount calls).2.make group benchMethod id description
        opsPerLoop argProvider baseMethod = .ok group' →
      ∃ bench, group'.benches = group.benches ++ [bench] ∧
        (DeltaBuilderLaw group.toGroupRef loopCount calls benchMethod baseMethod id description
          opsPerLoop argProvider bench ↔ LoopDeltaKept calls) := by
  have hlaw := deltaChainBench_law_iff group.toGroupRef loopCount calls benchMethod baseMethod id
    description opsPerLoop argProvider
  exact ⟨hlaw,fun group' hmake => ⟨_,BenchmarkGroup.add_ok hmake,hlaw⟩⟩

/-- A chain that asks for the loop delta last, into an empty group. -/
theorem deltaMaker_law_tagged :
    let calls : List DeltaCall := [.setTags ["slow"],.useLoopDelta]
    ∃ (group' : BenchmarkGroup (BenchTemplate ℕ Unit)) (bench : DeltaBenchmark ℕ Unit),
      (deltaChain ⟨"cpp",""⟩ 10000 calls).2.make ⟨⟨"cpp",""⟩,[]⟩ (.method 1) "crc8" "crc8 loop" 4096
        () = .ok group' ∧
      group'.benches = [bench] ∧
      DeltaBuilderLaw ⟨"cpp",""⟩ 10000 calls (.method 1) .dummyBench "crc8" "crc8 loop" 4096 ()
        bench := by
  intro calls
  obtain ⟨-,hmake⟩ := deltaMaker_law_iff (⟨⟨"cpp",""⟩,[]⟩ : BenchmarkGroup (BenchTemplate ℕ Unit))
    10000 calls (.method 1) .dummyBench "crc8" "crc8 loop" 4096 ()
  obtain ⟨bench,hbenches,hlaw⟩ := hmake _ rfl
  exact ⟨_,bench,rfl,hbenches,hlaw.mpr (by decide)⟩

/-- `useLoopDelta().setLoopCount(1000)`: the benchmark is built from `delta_bench`. -/
theorem deltaMaker_loses_loop_delta :
    ((deltaChain ⟨"cpp","Tests written in C++"⟩ 10000 [.useLoopDelta,.setLoopCount 1000]).2.makeOnly
        (.method "sum_halves_bench") "sum-halves" "Sum 16-bit halves of array elems" 2048
        ()).impl.rawFunc = .deltaBench (.method "sum_halves_bench") .dummyBench ∧
    ¬ DeltaBuilderLaw ⟨"cpp","Tests written in C++"⟩ 10000 [.useLoopDelta,.setLoopCount 1000]
        (.method "sum_halves_bench") .dummyBench "sum-halves" "Sum 16-bit halves of array elems"
        2048 ()
        ((deltaChain ⟨"cpp","Tests written in C++"⟩ 10000
          [.useLoopDelta,.setLoopCount 1000]).2.makeOnly (.method "sum_halves_bench") "sum-halves"
          "Sum 16-bit halves of array elems" 2048 ()) :=
  ⟨rfl,fun h => absurd h.rawFunc (by decide)⟩

end UarchBench.Registration
