import UarchBench.Registration.Benchmark
import Mathlib.Data.List.Nodup

/-! Sequences of calls that add benchmarks to a group, one at a time or many at once. The caller
may catch what an addition throws and go on with the group. -/
namespace UarchBench.Registration
variable {ι : Type} {ref : GroupRef}

/-- A benchmark as an argument for a group, with the answer to whether its parent pointer is the
address of the group. -/
structure Candidate (ref : GroupRef) (ι : Type) where
  bench : Benchmark ι
  own : Bool
  own_reads : own = true → bench.getGroup = ref

inductive AddOutcome where
  | added
  | threw (what : String)
  | aborted (condition : String)
  deriving DecidableEq, Repr

/-- One call of the `add` of a single benchmark: the list of the group in front of and behind it. -/
structure Attempt (ref : GroupRef) (ι : Type) where
  before : List (Benchmark ι)
  candidate : Candidate ref ι
  outcome : AddOutcome
  after : List (Benchmark ι)

/-- What some calls have done: their attempts, the group, and how the last of them ended. -/
structure Additions (ref : GroupRef) (ι : Type) where
  attempts : List (Attempt ref ι)
  group : BenchmarkGroup ι
  outcome : AddOutcome

/-- A call of either `add`. -/
inductive AddCall (ref : GroupRef) (ι : Type) where
  | one (c : Candidate ref ι)
  | bulk (more : List (Candidate ref ι))

def AddCall.candidates : AddCall ref ι → List (Candidate ref ι)
  | .one c => [c]
  | .bulk more => more

namespace BenchmarkGroup

/-- `BenchmarkGroup::add` of one benchmark, with its assertion. -/
def addOne (group : BenchmarkGroup ι) (c : Candidate ref ι) : Additions ref ι :=
  let ended := fun (o : AddOutcome) (group' : BenchmarkGroup ι) =>
    (⟨[⟨group.benches,c,o,group'.benches⟩],group',o⟩ : Additions ref ι)
  if !c.own then ended (.aborted "&bench->getGroup() == this") group
  else match group.add c.bench with
    | .ok group' => ended .added group'
    | .error what => ended (.threw what) group

/-- `BenchmarkGroup::add` of a vector. Nothing catches what an addition throws. -/
def addAll (group : BenchmarkGroup ι) : List (Candidate ref ι) → Additions ref ι
  | [] => ⟨[],group,.added⟩
  | c::more =>
    let r := group.addOne c
    match r.outcome with
    | .added =>
      let rest := r.group.addAll more
      {rest with attempts := r.attempts ++ rest.attempts}
    | .threw _ | .aborted _ => r

def addCall (group : BenchmarkGroup ι) : AddCall ref ι → Additions ref ι
  | .one c => group.addOne c
  | .bulk more => group.addAll more

/-- A sequence of calls. Only a failed assertion ends it early. -/
def addCalls (group : BenchmarkGroup ι) : List (AddCall ref ι) → Additions ref ι
  | [] => ⟨[],group,.added⟩
  | call::calls =>
    let r := group.addCall call
    match r.outcome with
    | .aborted _ => r
    | .added | .threw _ =>
      let rest := r.group.addCalls calls
      {rest with attempts := r.attempts ++ rest.attempts}

end BenchmarkGroup

/-- The ID is already present. -/
def Present (id : String) (benches : List (Benchmark ι)) : Prop := ∃ o ∈ benches, o.getId = id

/-- The ways in which an attempt ends. -/
inductive Attempt.Step : Attempt ref ι → Prop
  | added {l c} (own : c.own = true) (fresh : ¬ Present c.bench.getId l) :
      Step ⟨l,c,.added,l ++ [c.bench]⟩
  | threw {l c} (own : c.own = true) (present : Present c.bench.getId l) :
      Step ⟨l,c,.threw ("duplicate test ID: " ++ c.bench.getId),l⟩
  | aborted {l c condition} (foreign : c.own = false) : Step ⟨l,c,.aborted condition,l⟩

/-- Attempts, each of which starts with the list that the one before it leaves. -/
inductive Trace : List (Benchmark ι) → List (Attempt ref ι) → List (Benchmark ι) → Prop
  | nil (l) : Trace l [] l
  | cons {a as l'} (step : a.Step) (rest : Trace a.after as l') : Trace a.before (a::as) l'

/-- The benchmarks whose addition has succeeded. -/
def addedBenches (attempts : List (Attempt ref ι)) : List (Benchmark ι) :=
  (attempts.filter (fun a => a.outcome = .added)).map (·.candidate.bench)

/-- The additions of a vector: one after the other, up to and with the first that does not succeed. -/
inductive InOrder : List (Candidate ref ι) → List (Attempt ref ι) → AddOutcome → Prop
  | done : InOrder [] [] .added
  | stop {a more} (failed : a.outcome ≠ .added) : InOrder (a.candidate::more) [a] a.outcome
  | next {a more as o} (added : a.outcome = .added) (rest : InOrder more as o) :
      InOrder (a.candidate::more) (a::as) o

/-- The attempts of a call, and how it ends. -/
def AddCall.Attempted : AddCall ref ι → List (Attempt ref ι) → AddOutcome → Prop
  | .one c, as, o => ∃ a, as = [a] ∧ a.candidate = c ∧ a.outcome = o
  | .bulk more, as, o => InOrder more as o

/-- The attempts of a sequence of calls. A call that throws is followed by the next one, a failed
assertion ends them all. -/
inductive CallsAttempted : List (AddCall ref ι) → List (Attempt ref ι) → Prop
  | done : CallsAttempted [] []
  | abort {call calls as condition} (attempted : call.Attempted as (.aborted condition)) :
      CallsAttempted (call::calls) as
  | next {call calls as as' o} (attempted : call.Attempted as o)
      (returned : ∀ condition, o ≠ .aborted condition) (rest : CallsAttempted calls as') :
      CallsAttempted (call::calls) (as ++ as')

lemma Trace.append {l m n : List (Benchmark ι)} {as bs : List (Attempt ref ι)}
    (h : Trace l as m) (h' : Trace m bs n) : Trace l (as ++ bs) n := by
  induction h with
  | nil l => exact h'
  | cons step rest ih => exact Trace.cons step (ih h')

namespace BenchmarkGroup

/-- The search decides on the presence of the ID. -/
theorem add_cases (group : BenchmarkGroup ι) (bench : Benchmark ι) :
    (¬ Present bench.getId group.benches ∧
      group.add bench = .ok {group with benches := group.benches ++ [bench]}) ∨
    (Present bench.getId group.benches ∧
      group.add bench = .error ("duplicate test ID: " ++ bench.getId)) := by
  by_cases h : Present bench.getId group.benches
  · refine Or.inr ⟨h,?_⟩
    obtain ⟨o,ho,hid⟩ := h
    have hfound : (group.benches.find? (fun o => bench.getId = o.getId)).isSome :=
      List.find?_isSome.mpr ⟨o,ho,decide_eq_true hid.symm⟩
    rw [add,if_pos hfound]
  · exact Or.inl ⟨h,add_new (fun o ho hid => h ⟨o,ho,hid.symm⟩)⟩

theorem addOne_attempt (group : BenchmarkGroup ι) (c : Candidate ref ι) :
    ∃ a : Attempt ref ι, group.addOne c = ⟨[a],{group with benches := a.after},a.outcome⟩ ∧
      a.before = group.benches ∧ a.candidate = c ∧ a.Step := by
  rw [addOne]
  cases hown : c.own with
  | false => exact ⟨_,rfl,rfl,rfl,Attempt.Step.aborted hown⟩
  | true =>
    rcases group.add_cases c.bench with ⟨hfresh,hadd⟩ | ⟨hpresent,hadd⟩
    · rw [hadd]
      exact ⟨_,rfl,rfl,rfl,Attempt.Step.added hown hfresh⟩
    · rw [hadd]
      exact ⟨_,rfl,rfl,rfl,Attempt.Step.threw hown hpresent⟩

theorem addAll_attempts (group : BenchmarkGroup ι) (more : List (Candidate ref ι)) :
    Trace group.benches (group.addAll more).attempts (group.addAll more).group.benches ∧
      InOrder more (group.addAll more).attempts (group.addAll more).outcome := by
  induction more generalizing group with
  | nil => exact ⟨Trace.nil _,InOrder.done⟩
  | cons c more ih =>
    obtain ⟨a,hone,hbefore,rfl,hstep⟩ := group.addOne_attempt c
    rw [addAll,hone,← hbefore]
    dsimp only
    cases houtcome : a.outcome with
    | added =>
      obtain ⟨htrace,horder⟩ := ih {group with benches := a.after}
      exact ⟨Trace.cons hstep htrace,InOrder.next houtcome horder⟩
    | threw what | aborted what =>
      have hstop : InOrder (a.candidate::more) [a] a.outcome := InOrder.stop (by simp [houtcome])
      rw [houtcome] at hstop
      exact ⟨Trace.cons hstep (Trace.nil _),hstop⟩

theorem addCall_attempts (group : BenchmarkGroup ι) (call : AddCall ref ι) :
    Trace group.benches (group.addCall call).attempts (group.addCall call).group.benches ∧
      call.Attempted (group.addCall call).attempts (group.addCall call).outcome := by
  cases call with
  | one c =>
    obtain ⟨a,hone,hbefore,hc,hstep⟩ := group.addOne_attempt c
    rw [addCall,hone,← hbefore]
    exact ⟨Trace.cons hstep (Trace.nil _),a,rfl,hc,rfl⟩
  | bulk more => exact group.addAll_attempts more

theorem addCalls_attempts (group : BenchmarkGroup ι) (calls : List (AddCall ref ι)) :
    Trace group.benches (group.addCalls calls).attempts (group.addCalls calls).group.benches ∧
      CallsAttempted calls (group.addCalls calls).attempts := by
  induction calls generalizing group with
  | nil => exact ⟨Trace.nil _,CallsAttempted.done⟩
  | cons call calls ih =>
    obtain ⟨htrace,hcall⟩ := group.addCall_attempts call
    obtain ⟨hrest,hcalls⟩ := ih (group.addCall call).group
    rw [addCalls]
    cases houtcome : (group.addCall call).outcome with
    | added | threw what =>
      exact ⟨htrace.append hrest,CallsAttempted.next hcall (by simp [houtcome]) hcalls⟩
    | aborted condition => exact ⟨htrace,CallsAttempted.abort (houtcome ▸ hcall)⟩

end BenchmarkGroup

namespace Trace
variable {l l' : List (Benchmark ι)} {as : List (Attempt ref ι)}

/-- The list grows by the benchmarks that were added. -/
theorem list_eq (h : Trace l as l') : l' = l ++ addedBenches as := by
  induction h with
  | nil l => exact (List.append_nil l).symm
  | @cons a as l' step rest ih =>
    rw [ih]
    cases step with
    | added own fresh => exact List.append_assoc _ _ _
    | threw own present => rfl
    | aborted foreign => rfl

/-- An attempt finds the list that the attempts before it have left. -/
theorem attempt {earlier later : List (Attempt ref ι)} {a : Attempt ref ι}
    (h : Trace l (earlier ++ a::later) l') :
    a.before = l ++ addedBenches earlier ∧ a.Step := by
  induction earlier generalizing l with
  | nil =>
    cases h with
    | cons step rest => exact ⟨(List.append_nil _).symm,step⟩
  | cons b earlier ih =>
    cases h with
    | cons step rest =>
      obtain ⟨hbefore,ha⟩ := ih rest
      refine ⟨?_,ha⟩
      rw [hbefore,(Trace.cons step (Trace.nil _)).list_eq,List.append_assoc]
      rw [addedBenches,addedBenches,addedBenches,← List.map_append,← List.filter_append]
      rfl

/-- An invariant of the list that additions of fresh benchmarks keep. -/
theorem invariant {P : List (Benchmark ι) → Prop}
    (keep : ∀ l (b : Benchmark ι), P l → b.getGroup = ref → ¬ Present b.getId l → P (l ++ [b]))
    (h : Trace l as l') (hl : P l) : P l' := by
  induction h with
  | nil l => exact hl
  | @cons a as l' step rest ih =>
    refine ih ?_
    cases step with
    | @added l c own fresh => exact keep l c.bench hl (c.own_reads own) fresh
    | threw own present => exact hl
    | aborted foreign => exact hl

theorem ids_nodup (h : Trace l as l') (hl : (l.map Benchmark.getId).Nodup) :
    (l'.map Benchmark.getId).Nodup := by
  refine h.invariant (P := fun l => (l.map Benchmark.getId).Nodup) (fun l b hl _ hfresh => ?_) hl
  rw [List.map_append,List.map_singleton,List.nodup_append_comm,List.singleton_append,
    List.nodup_cons]
  refine ⟨fun hmem => hfresh ?_,hl⟩
  obtain ⟨o,ho,hid⟩ := List.mem_map.mp hmem
  exact ⟨o,ho,hid⟩

theorem own_group (h : Trace l as l') (hl : ∀ b ∈ l, b.getGroup = ref) :
    ∀ b ∈ l', b.getGroup = ref := by
  refine h.invariant (P := fun l => ∀ b ∈ l, b.getGroup = ref) (fun l b hl hb _ => ?_) hl
  exact List.forall_mem_append.mpr ⟨hl,List.forall_mem_singleton.mpr hb⟩

end Trace

/-- What the calls keep of a group: its benchmarks are its own, and no two share an ID. -/
structure BenchmarkGroup.Distinct (group : BenchmarkGroup ι) (ref : GroupRef) : Prop where
  own : ∀ b ∈ group.benches, b.getGroup = ref
  ids : (group.benches.map Benchmark.getId).Nodup

/-- Within one group a path determines the ID. -/
theorem BenchmarkGroup.Distinct.paths {group : BenchmarkGroup ι} (h : group.Distinct ref) :
    (group.benches.map Benchmark.getPath).Nodup := by
  have hpaths : group.benches.map Benchmark.getPath =
      (group.benches.map Benchmark.getId).map (ref.id ++ "/" ++ ·) := by
    rw [List.map_map]
    exact List.map_congr_left (fun b hb => by
      rw [Benchmark.getPath,h.own b hb]
      rfl)
  rw [hpaths]
  exact h.ids.map (fun _ _ heq => (String.append_right_inj _).mp heq)

theorem BenchmarkGroup.addCalls_distinct (calls : List (AddCall ref ι)) :
    ((⟨ref,[]⟩ : BenchmarkGroup ι).addCalls calls).group.Distinct ref := by
  obtain ⟨htrace,-⟩ := addCalls_attempts ⟨ref,[]⟩ calls
  exact ⟨htrace.own_group (List.forall_mem_nil _),htrace.ids_nodup List.nodup_nil⟩

/-- However the calls on a new group mix, each of them attempts what it is given, a vector as far as
the first addition that fails. The list is what was added, in the order of the calls and without two
benchmarks of the same ID or path. An attempt throws if it finds its ID, and only an added benchmark
changes the list. -/
theorem addCalls_distinct_benches (ref : GroupRef) (calls : List (AddCall ref ι)) :
    let r := (⟨ref,[]⟩ : BenchmarkGroup ι).addCalls calls
    CallsAttempted calls r.attempts ∧
    r.group.benches = addedBenches r.attempts ∧
    (r.group.benches.map Benchmark.getId).Nodup ∧
    (r.group.benches.map Benchmark.getPath).Nodup ∧
    ∀ earlier a later, r.attempts = earlier ++ a::later →
      a.before = addedBenches earlier ∧
      ((∃ condition, a.outcome = .aborted condition) ↔ a.candidate.own = false) ∧
      (a.candidate.own = true →
        ((∃ what, a.outcome = .threw what) ↔ Present a.candidate.bench.getId a.before)) ∧
      a.after =
        if a.outcome = .added then a.before ++ [a.candidate.bench] else a.before := by
  intro r
  obtain ⟨htrace,hattempted⟩ := BenchmarkGroup.addCalls_attempts ⟨ref,[]⟩ calls
  have hdistinct := BenchmarkGroup.addCalls_distinct calls
  refine ⟨hattempted,htrace.list_eq,hdistinct.ids,hdistinct.paths,?_⟩
  intro earlier a later hsplit
  have hattempts : Trace [] (earlier ++ a::later) r.group.benches := hsplit ▸ htrace
  obtain ⟨hbefore,hstep⟩ := hattempts.attempt
  refine ⟨hbefore,?_⟩
  cases hstep with
  | added own fresh => simp [own,fresh]
  | threw own present => simp [own,present]
  | aborted foreign => simp [foreign]

/-- A group and a benchmark of it with some ID. -/
def mixedGroup : GroupRef := ⟨"mixed","Mixed calls"⟩

def mixedBench (id : String) : Candidate mixedGroup Unit :=
  ⟨⟨⟨mixedGroup,id,id,[],[],1⟩,()⟩,true,fun _ => rfl⟩

/-- The second `a` ends the vector in front of `c`, which can be added later. -/
def mixedCalls : List (AddCall mixedGroup Unit) :=
  [.bulk (["a","b","a","c"].map mixedBench),.one (mixedBench "c"),.one (mixedBench "b")]

theorem addCalls_distinct_benches_mixed :
    let r := (⟨mixedGroup,[]⟩ : BenchmarkGroup Unit).addCalls mixedCalls
    r.attempts.map (·.outcome) = [.added,.added,.threw "duplicate test ID: a",.added,
      .threw "duplicate test ID: b"] ∧
    r.group.benches.map Benchmark.getId = ["a","b","c"] ∧
    CallsAttempted mixedCalls r.attempts ∧ (r.group.benches.map Benchmark.getPath).Nodup := by
  obtain ⟨hattempted,-,-,hpaths,-⟩ := addCalls_distinct_benches mixedGroup mixedCalls
  exact ⟨by decide,by decide,hattempted,hpaths⟩

end UarchBench.Registration
