import UarchBench.Registration.MakerBase
import UarchBench.Timing.Oneshot

/-! The maker of oneshot benchmarks. The inherited setters copy the whole maker; the methods that
change a template parameter or the overhead build a new one from the parent, the loop count and
the overhead only. -/
namespace UarchBench.Registration
open Base Timing

/-- An overhead function: the calibration of a bench method, or any other function. -/
inductive OverheadFunc (μ ω : Type) where
  | benchToOverhead (method : Method μ) (name : String)
  | function (f : ω)
  deriving DecidableEq, Repr

/-- The raw functions that a benchmark may hold: an instance of `OneshotAlgo::bench`, or a method
that does the sampling itself. -/
inductive OneshotRawFunc (μ ρ : Type) where
  | bench (method warmOnce warmEvery : Method μ)
  | raw (method : ρ)
  deriving DecidableEq, Repr

/-- The call of a raw function, given the code of the methods. -/
def OneshotRawFunc.call {μ ρ σ α δ κ : Type} {samples : ℕ} (T : Timer δ κ) (now : StateM σ δ)
    (code : Method μ → Bench2 σ α) (rawCode : ρ → UInt64 → α → StateM σ (Samples δ samples)) :
    OneshotRawFunc μ ρ → UInt64 → α → StateM σ (Samples δ samples)
  | .bench method warmOnce warmEvery =>
    oneshotBench T now samples (code method) (code warmOnce) (code warmEvery)
  | .raw method => rawCode method

/-- The members of `OneshotBench<TIMER, samples>`. -/
structure OneshotBench (μ ρ ω α : Type) where
  loopCount : UInt32
  rawFunc : OneshotRawFunc μ ρ
  /-- The address of the method itself. -/
  funcAddr : Method μ ⊕ ρ
  argProvider : α
  overheadFunc : OverheadFunc μ ω

abbrev OneshotBenchmark (μ ρ ω α : Type) := Benchmark (OneshotBench μ ρ ω α)

/-- `OneshotMaker<TIMER, SAMPLES, WARM_ONCE, WARM_EVERY>`, with the two methods of its type. -/
structure OneshotMaker (μ ω : Type) extends MakerBase where
  warmOnce : Method μ
  warmEvery : Method μ
  overhead : OverheadFunc μ ω

namespace OneshotMaker
variable {μ ω : Type}

def defaultOverhead : OverheadFunc μ ω := .benchToOverhead .dummyBench "default"

def construct (warmOnce warmEvery : Method μ) (parent : GroupRef) (loopCount : UInt32 := 1)
    (overhead : OverheadFunc μ ω := defaultOverhead) : OneshotMaker μ ω :=
  ⟨MakerBase.construct parent loopCount,warmOnce,warmEvery,overhead⟩

def setTags (maker : OneshotMaker μ ω) (tags : List String) : OneshotMaker μ ω :=
  {maker with toMakerBase := maker.toMakerBase.setTags tags}

def setLoopCount (maker : OneshotMaker μ ω) (loopCount : UInt32) : OneshotMaker μ ω :=
  {maker with toMakerBase := maker.toMakerBase.setLoopCount loopCount}

def setFeatures (maker : OneshotMaker μ ω) (features : List X86Feature) : OneshotMaker μ ω :=
  {maker with toMakerBase := maker.toMakerBase.setFeatures features}

def withTouch (maker : OneshotMaker μ ω) (newTouch : Method μ) : OneshotMaker μ ω :=
  construct newTouch maker.warmEvery maker.parent maker.loopCount maker.overhead

def withWarm (maker : OneshotMaker μ ω) (newWarm : Method μ) : OneshotMaker μ ω :=
  construct maker.warmOnce newWarm maker.parent maker.loopCount maker.overhead

def withOverhead (maker : OneshotMaker μ ω) (o : OverheadFunc μ ω) : OneshotMaker μ ω :=
  construct maker.warmOnce maker.warmEvery maker.parent maker.loopCount o

/-- The overload that takes a bench method. -/
def withOverheadOf (maker : OneshotMaker μ ω) (newOverh : Method μ) (name : String) :
    OneshotMaker μ ω := maker.withOverhead (.benchToOverhead newOverh name)

variable {ρ α : Type}

/-- The benchmark that `make2` allocates. -/
def newBench (maker : OneshotMaker μ ω) (args : BenchArgs) (f : OneshotRawFunc μ ρ)
    (funcAddr : Method μ ⊕ ρ) (argProvider : α) : OneshotBenchmark μ ρ ω α :=
  ⟨args,maker.loopCount,f,funcAddr,argProvider,maker.overhead⟩

def make2 (maker : OneshotMaker μ ω) (group : BenchmarkGroup (OneshotBench μ ρ ω α))
    (args : BenchArgs) (f : OneshotRawFunc μ ρ) (funcAddr : Method μ ⊕ ρ) (argProvider : α) :
    Except String (BenchmarkGroup (OneshotBench μ ρ ω α)) :=
  group.add (maker.newBench args f funcAddr argProvider)

def make (maker : OneshotMaker μ ω) (group : BenchmarkGroup (OneshotBench μ ρ ω α))
    (method : Method μ) (id description : String) (opsPerInvocation : UInt32) (argProvider : α) :
    Except String (BenchmarkGroup (OneshotBench μ ρ ω α)) :=
  maker.make2 group (maker.makeArgs id description opsPerInvocation)
    (.bench method maker.warmOnce maker.warmEvery) (.inl method) argProvider

def makeRaw (maker : OneshotMaker μ ω) (group : BenchmarkGroup (OneshotBench μ ρ ω α))
    (method : ρ) (id description : String) (opsPerInvocation : UInt32) (argProvider : α) :
    Except String (BenchmarkGroup (OneshotBench μ ρ ω α)) :=
  maker.make2 group (maker.makeArgs id description opsPerInvocation) (.raw method) (.inr method)
    argProvider

end OneshotMaker

inductive OneshotCall (μ ω : Type) where
  | setTags (tags : List String)
  | setLoopCount (loopCount : UInt32)
  | setFeatures (features : List X86Feature)
  | withTouch (newTouch : Method μ)
  | withWarm (newWarm : Method μ)
  | withOverhead (o : OverheadFunc μ ω)
  | withOverheadOf (newOverh : Method μ) (name : String)
  deriving DecidableEq, Repr

namespace OneshotCall
variable {μ ω : Type}

def apply (maker : OneshotMaker μ ω) : OneshotCall μ ω → OneshotMaker μ ω
  | setTags tags => maker.setTags tags
  | setLoopCount loopCount => maker.setLoopCount loopCount
  | setFeatures features => maker.setFeatures features
  | withTouch newTouch => maker.withTouch newTouch
  | withWarm newWarm => maker.withWarm newWarm
  | withOverhead o => maker.withOverhead o
  | withOverheadOf newOverh name => maker.withOverheadOf newOverh name

def tags? : OneshotCall μ ω → Option (List String)
  | setTags tags => some tags
  | _ => none

def loopCount? : OneshotCall μ ω → Option UInt32
  | setLoopCount loopCount => some loopCount
  | _ => none

def features? : OneshotCall μ ω → Option (List X86Feature)
  | setFeatures features => some features
  | _ => none

def touch? : OneshotCall μ ω → Option (Method μ)
  | withTouch newTouch => some newTouch
  | _ => none

def warm? : OneshotCall μ ω → Option (Method μ)
  | withWarm newWarm => some newWarm
  | _ => none

def overhead? : OneshotCall μ ω → Option (OverheadFunc μ ω)
  | withOverhead o => some o
  | withOverheadOf newOverh name => some (.benchToOverhead newOverh name)
  | _ => none

/-- The calls that build a new maker. -/
def rebuilds : OneshotCall μ ω → Bool
  | setTags _ | setLoopCount _ | setFeatures _ => false
  | withTouch _ | withWarm _ | withOverhead _ | withOverheadOf _ _ => true

end OneshotCall

section Chain
variable {μ ω : Type} (start : OneshotMaker μ ω) (calls : List (OneshotCall μ ω))

/-- The maker at the end of a chain. -/
def oneshotChain : OneshotMaker μ ω := calls.foldl OneshotCall.apply start

lemma oneshotChain_parent : (oneshotChain start calls).parent = start.parent := by
  have h := foldl_lastWrite OneshotCall.apply (fun m => m.parent) (fun _ => none)
    (fun m call => by cases call <;> rfl) calls start
  rw [oneshotChain,h,lastWrite,List.filterMap_none]
  rfl

lemma oneshotChain_loopCount : (oneshotChain start calls).loopCount =
    lastWrite OneshotCall.loopCount? calls start.loopCount :=
  foldl_lastWrite OneshotCall.apply (fun m => m.loopCount) _ (fun m call => by cases call <;> rfl)
    calls start

lemma oneshotChain_warmOnce : (oneshotChain start calls).warmOnce =
    lastWrite OneshotCall.touch? calls start.warmOnce :=
  foldl_lastWrite OneshotCall.apply (fun m => m.warmOnce) _ (fun m call => by cases call <;> rfl)
    calls start

lemma oneshotChain_warmEvery : (oneshotChain start calls).warmEvery =
    lastWrite OneshotCall.warm? calls start.warmEvery :=
  foldl_lastWrite OneshotCall.apply (fun m => m.warmEvery) _ (fun m call => by cases call <;> rfl)
    calls start

lemma oneshotChain_overhead : (oneshotChain start calls).overhead =
    lastWrite OneshotCall.overhead? calls start.overhead :=
  foldl_lastWrite OneshotCall.apply (fun m => m.overhead) _ (fun m call => by cases call <;> rfl)
    calls start

/-- A rebuilt maker has no tags. -/
lemma oneshotChain_tags : (oneshotChain start calls).tags =
    lastWrite (writesOrResets OneshotCall.tags? OneshotCall.rebuilds []) calls start.tags :=
  foldl_lastWrite OneshotCall.apply (fun m => m.tags) _ (fun m call => by cases call <;> rfl)
    calls start

/-- A rebuilt maker has no features. -/
lemma oneshotChain_features : (oneshotChain start calls).features =
    lastWrite (writesOrResets OneshotCall.features? OneshotCall.rebuilds []) calls
      start.features :=
  foldl_lastWrite OneshotCall.apply (fun m => m.features) _ (fun m call => by cases call <;> rfl)
    calls start

end Chain
namespace OneshotRawFunc
variable {μ ρ : Type}

/-- The method called once before sampling; a raw method calls none of the maker's. -/
def warmOnce : OneshotRawFunc μ ρ → Method μ
  | bench _ warmOnce _ => warmOnce
  | raw _ => .inlinedEmpty

/-- The method called before every sample. -/
def warmEvery : OneshotRawFunc μ ρ → Method μ
  | bench _ _ warmEvery => warmEvery
  | raw _ => .inlinedEmpty

end OneshotRawFunc

section Law
variable {μ ρ ω α : Type}

/-- The settings that every benchmark takes from its maker are those of the last calls that set
them. -/
structure OneshotSettingsLaw (start : OneshotMaker μ ω) (calls : List (OneshotCall μ ω))
    (bench : OneshotBenchmark μ ρ ω α) : Prop where
  group : bench.getGroup = start.parent
  tags : bench.getTags = lastWrite OneshotCall.tags? calls start.tags
  features : bench.getFeatures = lastWrite OneshotCall.features? calls start.features
  loopCount : bench.impl.loopCount = lastWrite OneshotCall.loopCount? calls start.loopCount
  overhead : bench.impl.overheadFunc = lastWrite OneshotCall.overhead? calls start.overhead

/-- The same with the two warming methods. -/
structure OneshotBuilderLaw (start : OneshotMaker μ ω) (calls : List (OneshotCall μ ω))
    (bench : OneshotBenchmark μ ρ ω α) : Prop extends OneshotSettingsLaw start calls bench where
  touch : bench.impl.rawFunc.warmOnce = lastWrite OneshotCall.touch? calls start.warmOnce
  warm : bench.impl.rawFunc.warmEvery = lastWrite OneshotCall.warm? calls start.warmEvery

/-- The field is empty anyway, or no call after the last one that sets it builds a new maker. -/
def Survives {β : Type} (writes : OneshotCall μ ω → Option (List β))
    (calls : List (OneshotCall μ ω)) : Prop :=
  lastWrite writes calls [] = [] ∨
    ∀ call ∈ afterLastWrite writes calls, call.rebuilds = false

/-- Both fields that a rebuilt maker lacks survive the chain. -/
def SettingsSurvive (calls : List (OneshotCall μ ω)) : Prop :=
  Survives OneshotCall.tags? calls ∧ Survives OneshotCall.features? calls

section Made
variable (start : OneshotMaker μ ω) (calls : List (OneshotCall μ ω)) (id description : String)
  (opsPerInvocation : UInt32) (f : OneshotRawFunc μ ρ) (funcAddr : Method μ ⊕ ρ) (argProvider : α)

/-- The benchmark allocated at the end of a chain. -/
def oneshotChainBench : OneshotBenchmark μ ρ ω α :=
  (oneshotChain start calls).newBench
    ((oneshotChain start calls).makeArgs id description opsPerInvocation) f funcAddr argProvider

/-- It has the wanted settings exactly if the two fields survive. -/
theorem settingsLaw_iff (htags : start.tags = []) (hfeatures : start.features = []) :
    OneshotSettingsLaw start calls (oneshotChainBench start calls id description opsPerInvocation f
      funcAddr argProvider) ↔ SettingsSurvive calls := by
  have htagsLaw : (oneshotChain start calls).tags =
      lastWrite OneshotCall.tags? calls start.tags ↔ Survives OneshotCall.tags? calls := by
    rw [oneshotChain_tags,htags]
    exact lastWrite_resets_iff _ _ _ calls
  have hfeaturesLaw : (oneshotChain start calls).features =
      lastWrite OneshotCall.features? calls start.features ↔
        Survives OneshotCall.features? calls := by
    rw [oneshotChain_features,hfeatures]
    exact lastWrite_resets_iff _ _ _ calls
  constructor
  · intro hlaw
    exact ⟨htagsLaw.mp hlaw.tags,hfeaturesLaw.mp hlaw.features⟩
  · rintro ⟨hkeptTags,hkeptFeatures⟩
    exact ⟨oneshotChain_parent start calls,htagsLaw.mpr hkeptTags,hfeaturesLaw.mpr hkeptFeatures,
      oneshotChain_loopCount start calls,oneshotChain_overhead start calls⟩

/-- The sampling loop of a benchmark from `make` runs the last touch and warm methods. -/
theorem oneshotChain_call {σ β δ κ : Type} {samples : ℕ} (T : Timer δ κ) (now : StateM σ δ)
    (code : Method μ → Bench2 σ β) (rawCode : ρ → UInt64 → β → StateM σ (Samples δ samples))
    (method : Method μ) :
    (OneshotRawFunc.bench method (oneshotChain start calls).warmOnce
      (oneshotChain start calls).warmEvery).call T now code rawCode =
    oneshotBench T now samples (code method)
      (code (lastWrite OneshotCall.touch? calls start.warmOnce))
      (code (lastWrite OneshotCall.warm? calls start.warmEvery)) := by
  rw [← oneshotChain_warmOnce,← oneshotChain_warmEvery]
  rfl

end Made

/-- The builder law of `OneshotMaker`. A benchmark from `make` obeys it exactly if tags and
features survive the rebuilding calls. One from `make_raw`, which samples by itself, then takes
over the settings that concern it; touch and warm methods are lost on it. -/
theorem oneshotMaker_law_iff (warmOnce warmEvery : Method μ)
    (group : BenchmarkGroup (OneshotBench μ ρ ω α)) (loopCount : UInt32)
    (overhead : OverheadFunc μ ω) (calls : List (OneshotCall μ ω)) (id description : String)
    (opsPerInvocation : UInt32) (argProvider : α) :
    let start := OneshotMaker.construct warmOnce warmEvery group.toGroupRef loopCount overhead
    (∀ method group', (oneshotChain start calls).make group method id description
        opsPerInvocation argProvider = .ok group' →
      ∃ bench, group'.benches = group.benches ++ [bench] ∧
        (OneshotBuilderLaw start calls bench ↔ SettingsSurvive calls)) ∧
    ∀ method group', (oneshotChain start calls).makeRaw group method id description
        opsPerInvocation argProvider = .ok group' →
      ∃ bench, group'.benches = group.benches ++ [bench] ∧
        (OneshotSettingsLaw start calls bench ↔ SettingsSurvive calls) ∧
        (OneshotBuilderLaw start calls bench ↔ SettingsSurvive calls ∧
          lastWrite OneshotCall.touch? calls warmOnce = .inlinedEmpty ∧
          lastWrite OneshotCall.warm? calls warmEvery = .inlinedEmpty) := by
  intro start
  refine ⟨fun method group' hmake => ⟨_,BenchmarkGroup.add_ok hmake,?_⟩,
    fun method group' hmake => ⟨_,BenchmarkGroup.add_ok hmake,?_⟩⟩
  · have hsettings := settingsLaw_iff start calls id description opsPerInvocation
      (.bench method (oneshotChain start calls).warmOnce (oneshotChain start calls).warmEvery :
        OneshotRawFunc μ ρ) (.inl method) argProvider rfl rfl
    exact ⟨fun hlaw => hsettings.mp hlaw.toOneshotSettingsLaw,fun hkept => ⟨hsettings.mpr hkept,
      oneshotChain_warmOnce start calls,oneshotChain_warmEvery start calls⟩⟩
  · have hsettings := settingsLaw_iff start calls id description opsPerInvocation
      (.raw method : OneshotRawFunc μ ρ) (.inr method) argProvider rfl rfl
    exact ⟨hsettings,fun hlaw => ⟨hsettings.mp hlaw.toOneshotSettingsLaw,hlaw.touch.symm,
      hlaw.warm.symm⟩,fun ⟨hkept,htouch,hwarm⟩ => ⟨hsettings.mpr hkept,htouch.symm,hwarm.symm⟩⟩

/-- `setTags` after `withWarm`, made in both ways. -/
theorem oneshotMaker_law_tagged_last :
    let start : OneshotMaker ℕ Unit :=
      OneshotMaker.construct .inlinedEmpty .inlinedEmpty ⟨"oneshot",""⟩ 1
    let calls : List (OneshotCall ℕ Unit) := [.withWarm (.method 1),.setTags ["noisy"]]
    (∃ (group : BenchmarkGroup (OneshotBench ℕ ℕ Unit Unit))
        (bench : OneshotBenchmark ℕ ℕ Unit Unit),
      (oneshotChain start calls).make ⟨⟨"oneshot",""⟩,[]⟩ (.method 2) "load" "" 1 () = .ok group ∧
      group.benches = [bench] ∧ OneshotBuilderLaw start calls bench) ∧
    ∃ (group : BenchmarkGroup (OneshotBench ℕ ℕ Unit Unit))
        (bench : OneshotBenchmark ℕ ℕ Unit Unit),
      (oneshotChain start calls).makeRaw ⟨⟨"oneshot",""⟩,[]⟩ 3 "load" "" 1 () = .ok group ∧
      group.benches = [bench] ∧ OneshotSettingsLaw start calls bench := by
  intro start calls
  obtain ⟨hmake,hraw⟩ := oneshotMaker_law_iff (ρ := ℕ) (ω := Unit) (μ := ℕ) .inlinedEmpty
    .inlinedEmpty ⟨⟨"oneshot",""⟩,[]⟩ 1 OneshotMaker.defaultOverhead calls "load" "" 1 ()
  have hkept : SettingsSurvive calls := ⟨Or.inr (by decide),Or.inl rfl⟩
  obtain ⟨bench,hbenches,hlaw⟩ := hmake (.method 2) _ rfl
  obtain ⟨rawBench,hrawBenches,hrawLaw,-⟩ := hraw 3 _ rfl
  exact ⟨⟨_,bench,rfl,hbenches,hlaw.mpr hkept⟩,_,rawBench,rfl,hrawBenches,hrawLaw.mpr hkept⟩

/-- `setTags({"noisy"}).withWarm<dummy_bench>()`: the benchmark has no tags. -/
theorem oneshotMaker_loses_tags :
    let start : OneshotMaker ℕ Unit :=
      OneshotMaker.construct .inlinedEmpty .inlinedEmpty ⟨"studies/store-fwd-try",""⟩
    let calls : List (OneshotCall ℕ Unit) := [.setTags ["noisy"],.withWarm .dummyBench]
    ∃ (group : BenchmarkGroup (OneshotBench ℕ ℕ Unit Unit))
        (bench : OneshotBenchmark ℕ ℕ Unit Unit),
      (oneshotChain start calls).make ⟨⟨"studies/store-fwd-try",""⟩,[]⟩ (.method 1)
        "stfwd-try2-1000w" "stfwd-try2 1000 loads warm" 1 () = .ok group ∧
      group.benches = [bench] ∧ bench.getTags = [] ∧ ¬ OneshotBuilderLaw start calls bench :=
  ⟨_,_,rfl,rfl,rfl,fun h => absurd h.tags (by decide)⟩

end Law
end UarchBench.Registration
