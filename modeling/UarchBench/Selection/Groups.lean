import UarchBench.Base.Progress
import UarchBench.Base.RegexSyntax
import UarchBench.Registration.DeltaMaker
import UarchBench.Registration.OneshotMaker
import Mathlib.Data.List.Nodup

/-! The kinds of benchmark groups: which of their benchmarks they run under a predicate, and what
the listing shows of them. -/
namespace UarchBench.Selection
open Base Registration

inductive RunError where
  | regex (e : RegexError)
  | undefinedBehavior
  | assertion (condition : String)
  | logicError (message : String)
  deriving DecidableEq, Repr

/-- The classes derived from `BenchmarkBase`. -/
inductive BenchImpl (μ ρ ω α : Type) where
  | bench (b : BenchTemplate μ α)
  | oneshot (b : OneshotBench μ ρ ω α)

/-- What running depends on besides the groups: the features of the hardware and the provider
that returns a null pointer. -/
structure Platform (α : Type) where
  supported : X86Feature → Bool
  nullProvider : α

variable {μ ρ ω α ι : Type}

abbrev Predicate (ι : Type) := Benchmark ι → Except RegexError Bool

/-- A run, by the benchmarks that it measures. -/
abbrev Run (ι : Type) := Progress RunError (Benchmark ι)

def Platform.supports (platform : Platform α) (features : List X86Feature) : Bool :=
  features.all platform.supported

/-- The body of a conditional on the predicate. -/
def whenAccepted (predicate : Predicate ι) (b : Benchmark ι) (body : Run ι) : Run ι :=
  Progress.guarded ((predicate b).mapError RunError.regex) body

/-- `BenchmarkBase::runAndPrint`. -/
def runAndPrint (platform : Platform α) (b : Benchmark ι) : Run ι :=
  if platform.supports b.getFeatures then Progress.just [b] else Progress.nothing

/-- `BenchmarkBase::run`. -/
def run (b : Benchmark (BenchImpl μ ρ ω α)) : Run (BenchImpl μ ρ ω α) :=
  match b.impl with
  | .bench _ => Progress.just [b]
  | .oneshot _ => Progress.throw (.logicError "oneshot doesn't do run()")

def runIf (platform : Platform α) (predicate : Predicate ι) (group : BenchmarkGroup ι) : Run ι :=
  Progress.forEach (fun b => whenAccepted predicate b (runAndPrint platform b)) group.benches

/-- A row of the table that `printBenches` builds. -/
structure ListedBench where
  path : String
  description : String
  tags : List String
  features : List X86Feature
  deriving DecidableEq, Repr

def printBenches (group : BenchmarkGroup ι) : List ListedBench :=
  group.benches.map (fun b => ⟨b.getPath,b.args.description,b.getTags,b.getFeatures⟩)

/-- `LoadStoreGroup`, with the bounds that its constructor asserts: the product of the two sides
of the grid does not wrap around. -/
structure LoadStoreGroup (ι : Type) extends BenchmarkGroup ι where
  rows : ℕ
  cols : ℕ
  opSize : ℕ
  rows_lt : rows < 10000
  cols_lt : cols < 10000

/-- `StaticMaker::make_bench`. -/
def makeBench (benchMethod : Method μ) (parent : GroupRef) (id description : String)
    (opsPerLoop : UInt32) (argProvider : α)
    (loopCount : UInt32 := DeltaMaker.defaultLoopCount) : DeltaBenchmark μ α :=
  (DeltaMaker.construct false parent loopCount).makeOnly benchMethod id description opsPerLoop
    argProvider

/-- A benchmark that several groups of different members may hold. -/
def ofDelta (b : DeltaBenchmark μ α) : Benchmark (BenchImpl μ ρ ω α) := ⟨b.args,.bench b.impl⟩

namespace LoadStoreGroup

/-- The group is more like a single benchmark, and this one stands for it in the predicate. -/
def fake (platform : Platform α) (group : LoadStoreGroup (BenchImpl μ ρ ω α)) :
    Benchmark (BenchImpl μ ρ ω α) :=
  ofDelta (makeBench .dummyBench group.toGroupRef "fake" group.desc 1 platform.nullProvider)

def runIf (platform : Platform α) (predicate : Predicate (BenchImpl μ ρ ω α))
    (group : LoadStoreGroup (BenchImpl μ ρ ω α)) : Run (BenchImpl μ ρ ω α) :=
  match group.benches.head? with
  | none => Progress.throw .undefinedBehavior
  | some front =>
    if !platform.supports front.getFeatures then Progress.nothing
    else whenAccepted predicate (group.fake platform)
      (if group.benches.length = group.rows*group.cols then Progress.forEach run group.benches
      else Progress.throw (.assertion "benches.size() == rows_ * cols_"))

inductive Row where
  | bench (path description : String)
  | moreNotShown (count : UInt64)
  deriving DecidableEq, Repr

/-- The first two benchmarks and the last one; the count follows wherever the second is shown. -/
def printBenches (group : LoadStoreGroup ι) : Except RunError (List Row) :=
  match group.benches with
  | first::second::rest =>
    let row := fun b : Benchmark ι => Row.bench b.getPath b.args.description
    let more := Row.moreNotShown (group.benches.length.toUInt64-3)
    match rest.getLast? with
    | some back => .ok [row first,row second,more,row back]
    | none => .ok [row first,row second,more,row second,more]
  | _ => .error (.assertion "benches.size() >= 2")

def defaultRows : ℕ := 4
def defaultCols : ℕ := 16

def makeGroup (id name : String) (opSize : ℕ) : LoadStoreGroup ι :=
  ⟨⟨⟨id,name⟩,[]⟩,defaultRows,defaultCols,opSize,by decide,by decide⟩

def makeName (group : LoadStoreGroup ι) (misalign : ℕ) : String :=
  "Misaligned " ++ toString (group.opSize*8) ++ "-bit " ++ group.desc ++ " [" ++
    (if misalign < 10 then " " else "") ++ toString misalign ++ "]"

def makeId (misalign : ℕ) : String := "misaligned-" ++ toString misalign

/-- `add`. -/
def add (group : LoadStoreGroup ι) (bench : Benchmark ι) : Except String (LoadStoreGroup ι) :=
  (group.toBenchmarkGroup.add bench).map (fun g => {group with toBenchmarkGroup := g})

/-- The benchmark that `make` adds for a misalignment. -/
def makeOne (maker : DeltaMaker false) (group : LoadStoreGroup (BenchImpl μ ρ ω α))
    (misalignedPtr : ℕ → α) (method : Method μ) (misalign : ℕ) : Benchmark (BenchImpl μ ρ ω α) :=
  ofDelta (maker.makeOnly method (makeId misalign) (group.makeName misalign) 128
    (misalignedPtr misalign))

/-- `make`, where the provider of an argument is given by its misalignment. -/
def make (misalignedPtr : ℕ → α) (method : Method μ) (id : String) (opSize : ℕ)
    (features : List X86Feature := []) : Except String (LoadStoreGroup (BenchImpl μ ρ ω α)) :=
  let group := makeGroup id id opSize
  let maker := (DeltaMaker.construct false group.toGroupRef 1000).setFeatures features
  (List.range 64).foldlM
    (fun g misalign => g.add (makeOne maker group misalignedPtr method misalign)) group

/-- A grid of delta benchmarks without a gap. -/
structure Filled (group : LoadStoreGroup (BenchImpl μ ρ ω α)) : Prop where
  nonempty : group.benches ≠ []
  length_eq : group.benches.length = group.rows*group.cols
  delta : ∀ b ∈ group.benches, ∃ t, b.impl = .bench t

lemma foldlM_add {f : ℕ → Benchmark ι} (l : List ℕ) (group : LoadStoreGroup ι)
    (hnodup : (l.map (fun m => (f m).getId)).Nodup)
    (hnew : ∀ m ∈ l, ∀ o ∈ group.benches, (f m).getId ≠ o.getId) :
    l.foldlM (fun g m => g.add (f m)) group =
      (.ok {group with benches := group.benches ++ l.map f} :
        Except String (LoadStoreGroup ι)) := by
  induction l generalizing group with
  | nil => rw [List.map_nil,List.append_nil]; rfl
  | cons m l ih =>
    rw [List.map_cons,List.nodup_cons] at hnodup
    have hadd : group.add (f m) = .ok {group with benches := group.benches ++ [f m]} := by
      rw [add,BenchmarkGroup.add_new (hnew m List.mem_cons_self)]
      rfl
    rw [List.foldlM_cons,hadd]
    refine (ih _ hnodup.2 (fun k hk o ho => ?_)).trans ?_
    · rcases List.mem_append.mp ho with ho | ho
      · exact hnew k (List.mem_cons_of_mem m hk) o ho
      · rw [List.mem_singleton.mp ho]
        intro heq
        exact hnodup.1 (heq ▸ List.mem_map_of_mem hk)
    · simp

lemma makeId_injective : Function.Injective makeId := by
  intro m k h
  have hrepr : m.repr = k.repr := (String.append_right_inj _).mp h
  have hdigits : Nat.toDigits 10 m = Nat.toDigits 10 k := String.ofList_injective hrepr
  calc m = Nat.ofDigitChars 10 (Nat.toDigits 10 m) 0 := Nat.ofDigitChars_ten_toDigits.symm
    _ = k := by rw [hdigits,Nat.ofDigitChars_ten_toDigits]

/-- The group that `make` returns: its 64 benchmarks fill the grid. -/
theorem make_eq (misalignedPtr : ℕ → α) (method : Method μ) (id : String) (opSize : ℕ)
    (features : List X86Feature) :
    (make misalignedPtr method id opSize features :
        Except String (LoadStoreGroup (BenchImpl μ ρ ω α))) =
      .ok {(makeGroup id id opSize : LoadStoreGroup (BenchImpl μ ρ ω α)) with
        benches := (List.range 64).map (makeOne
          ((DeltaMaker.construct false ⟨id,id⟩ 1000).setFeatures features) (makeGroup id id opSize)
          misalignedPtr method)} :=
  foldlM_add _ _ (List.nodup_range.map makeId_injective)
    (fun _ _ _ ho => absurd ho List.not_mem_nil)

theorem make_filled {misalignedPtr : ℕ → α} {method : Method μ} {id : String} {opSize : ℕ}
    {features : List X86Feature} {group : LoadStoreGroup (BenchImpl μ ρ ω α)}
    (h : make misalignedPtr method id opSize features = .ok group) : group.Filled := by
  rw [make_eq] at h
  cases h
  refine ⟨by simp,by simp [makeGroup,defaultRows,defaultCols],fun b hb => ?_⟩
  obtain ⟨m,-,rfl⟩ := List.mem_map.mp hb
  exact ⟨_,rfl⟩

end LoadStoreGroup

/-- A registered group. An `OneshotGroup` differs from a plain group in its header only. -/
inductive Group (ι : Type) where
  | plain (group : BenchmarkGroup ι)
  | oneshot (group : BenchmarkGroup ι)
  | loadStore (group : LoadStoreGroup ι)

namespace Group

def benches : Group ι → List (Benchmark ι)
  | plain group | oneshot group => group.benches
  | loadStore group => group.benches

/-- The dispatch to the class of the group. -/
def runIf (platform : Platform α) (predicate : Predicate (BenchImpl μ ρ ω α)) :
    Group (BenchImpl μ ρ ω α) → Run (BenchImpl μ ρ ω α)
  | plain group | oneshot group => Selection.runIf platform predicate group
  | loadStore group => group.runIf platform predicate

end Group
end UarchBench.Selection
