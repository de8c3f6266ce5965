import UarchBench.Registration.Benchmark
import UarchBench.Base.LastWrite

/-! The settings that all makers share. The setters are written once, against the base object;
what type their copy has is up to the maker. -/
namespace UarchBench.Registration

/-- The members of `MakerBase`. -/
structure MakerBase where
  parent : GroupRef
  loopCount : UInt32
  tags : List String
  features : List X86Feature
  deriving DecidableEq, Repr

namespace MakerBase

/-- The constructor sets the parent and the loop count only. -/
def construct (parent : GroupRef) (loopCount : UInt32) : MakerBase := ⟨parent,loopCount,[],[]⟩

def makeArgs (maker : MakerBase) (id description : String) (opsPerLoop : UInt32) : BenchArgs :=
  ⟨maker.parent,id,description,maker.tags,maker.features,opsPerLoop⟩

def setTags (maker : MakerBase) (tags : List String) : MakerBase := {maker with tags := tags}

def setLoopCount (maker : MakerBase) (loopCount : UInt32) : MakerBase :=
  {maker with loopCount := loopCount}

def setFeatures (maker : MakerBase) (features : List X86Feature) : MakerBase :=
  {maker with features := features}

end MakerBase

/-- A benchmark method, named as a template argument names it. -/
inductive Method (μ : Type) where
  | inlinedEmpty
  | dummyBench
  | method (name : μ)
  deriving DecidableEq, Repr

end UarchBench.Registration
