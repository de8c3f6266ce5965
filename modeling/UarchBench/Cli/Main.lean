import UarchBench.Cli.CommandLine
import UarchBench.Selection.Run

/-! The program as a whole: it reads the command line, lists what is asked for or pins itself to a
CPU and runs the benchmarks of the selected timer. -/
namespace UarchBench.Cli
open Args Base Util Selection Registration

/-- What ends `main` early: the exceptions of `Context`, others with their texts, and what a group
throws. -/
inductive Thrown
  | silentSuccess
  | silentFailure
  | exception (what : Text)
  | group (e : RunError)
  deriving DecidableEq, Repr

/-- A timer with the groups of benchmarks that are made for it. `init` gives the text of the exception
that it throws on the given events, if any. -/
structure TimeredList (ι : Type) where
  name : Text
  description : Text
  groups : List (Selection.Group ι)
  init : Text → Option Text

abbrev cpuSetsize : ℕ := 1024

abbrev CpuSet := Fin cpuSetsize → Bool

/-- The host: the affinity of the process, or the error of reading it, and the error of setting it,
if any. -/
structure Machine (ι α : Type) where
  all : List (TimeredList ι)
  platform : Platform α
  getaffinity : Except ℕ CpuSet
  setaffinity : CpuSet → Option ℕ
  errnoToStr : ℕ → Text

/-- What the program does. -/
inductive Action (ι : Type)
  | usage
  | error (what : Text)
  | listTimers (timers : List (Text × Text))
  | listBenches (size : ℕ)
  | listGroup (group : Selection.Group ι)
  | clockOverheads
  | dumpTimer (name : Text)
  | pinned (cpu : Int32)
  | listEvents (timer : Text)
  | init (timer extraEvents : Text)
  | running (timer : Text)
  | measure (b : Benchmark ι)

/-- The actions of the last branch of `Context::run`. -/
def Action.isRun {ι : Type} : Action ι → Bool
  | .pinned _ | .listEvents _ | .init _ _ | .running _ | .measure _ => true
  | _ => false

abbrev Process (ι : Type) := Progress Thrown (Action ι)

def Settings.getTimerName (s : Settings) : Text :=
  if s.argTimer.matched then s.argTimer.value else "clock".toList

/-- The flags that select benchmarks. -/
def Settings.runArgs (s : Settings) : RunArgs where
  testName := if s.argTestName.matched then some (String.ofList s.argTestName.value) else none
  testTag := if s.argTestTag.matched then some (String.ofList s.argTestTag.value) else none

section Run
variable {μ ρ ω α : Type} (machine : Machine (BenchImpl μ ρ ω α) α) (s : Settings)

/-- `CPU_SET` on an empty set: a CPU that is out of range is left out. -/
def cpuSet (cpu : Int32) : CpuSet := fun i => cpu.toInt = (i : ℕ)

def getFirstAvailableCpu : Except Text Int32 :=
  match machine.getaffinity with
  | .error errno =>
    .error ("failed while getting existing cpu affinity: ".toList ++ machine.errnoToStr errno)
  | .ok set =>
    match (List.finRange cpuSetsize).find? set with
    | some cpu => .ok (Int32.ofNat cpu)
    | none => .error "not allowed to run on any CPUs - impossible?".toList

def pinToThread (cpu : Int32) : Process (BenchImpl μ ρ ω α) :=
  match machine.setaffinity (cpuSet cpu) with
  | some errno => Progress.throw (.exception ("failed to pin: ".toList ++ machine.errnoToStr errno))
  | none => Progress.just [.pinned cpu]

def getForTimer : Except Text (TimeredList (BenchImpl μ ρ ω α)) :=
  match machine.all.find? (fun i => i.name = s.getTimerName) with
  | some timer => .ok timer
  | none => .error ("No timer with name ".toList ++ s.getTimerName)

/-- `printBenches` of a group, below its header. -/
def listGroup (group : Selection.Group (BenchImpl μ ρ ω α)) : Process (BenchImpl μ ρ ω α) :=
  match group with
  | .plain _ | .oneshot _ => Progress.just [.listGroup group]
  | .loadStore g =>
    match g.printBenches with
    | .ok _ => Progress.just [.listGroup group]
    | .error e => ⟨[.listGroup group],some (.group e)⟩

def listBenches : Process (BenchImpl μ ρ ω α) :=
  match getForTimer machine s with
  | .error what => Progress.throw (.exception what)
  | .ok timer => (Progress.just [.listBenches timer.groups.length]).andThen
      (Progress.forEach listGroup timer.groups)

/-- `TimeredList::runIf`. -/
def runBenches (timer : TimeredList (BenchImpl μ ρ ω α)) : Process (BenchImpl μ ρ ω α) :=
  let run := contextRun machine.platform s.runArgs timer.groups
  ⟨.running timer.name::run.done.map .measure,run.thrown.map .group⟩

/-- The CPU that the benchmarks are pinned to. -/
def cpuToPin : Except Text Int32 :=
  if s.argPincpu.matched then .ok s.argPincpu.value else getFirstAvailableCpu machine

/-- The last branch of `Context::run`. -/
def runPinned : Process (BenchImpl μ ρ ω α) :=
  match cpuToPin machine s with
  | .error what => Progress.throw (.exception what)
  | .ok cpu => (pinToThread machine cpu).andThen (
      match getForTimer machine s with
      | .error what => Progress.throw (.exception what)
      | .ok timer =>
        if s.argListevents then Progress.just [.listEvents timer.name]
        else
          match timer.init s.argExtraevents.value with
          | some what => ⟨[.init timer.name s.argExtraevents.value],some (.exception what)⟩
          | none => (Progress.just [.init timer.name s.argExtraevents.value]).andThen
              (runBenches machine s timer))

/-- `Context::run`. -/
def run : Process (BenchImpl μ ρ ω α) :=
  if s.argListtimers then
    Progress.just [.listTimers (machine.all.map (fun i => (i.name,i.description)))]
  else if s.argListbenches then listBenches machine s
  else if s.argClockoverhead then Progress.just [.clockOverheads]
  else if s.argInternalDumpTimer then ⟨[.dumpTimer s.getTimerName],some .silentSuccess⟩
  else runPinned machine s

/-- The constructor of `Context`, and what it runs. -/
def main (args : List Text) : Process (BenchImpl μ ρ ω α) :=
  match parseCli args with
  | .error (.help _) => ⟨[.usage],some .silentSuccess⟩
  | .error (.parse what) => ⟨[.error what,.usage],some .silentFailure⟩
  | .ok s => run machine s

/-- The status that `main` returns with; an assertion ends the process otherwise. -/
def exitStatus (p : Process (BenchImpl μ ρ ω α)) : Option ℕ :=
  match p.thrown with
  | none | some .silentSuccess => some 0
  | some .silentFailure | some (.exception _) | some (.group (.regex _))
    | some (.group (.logicError _)) => some 1
  | some (.group .undefinedBehavior) | some (.group (.assertion _)) => none

end Run

section Pinned
variable {μ ρ ω α : Type} {machine : Machine (BenchImpl μ ρ ω α) α} {s : Settings}
  {cpu : Int32}

/-- What the last branch can do: an exception ends it before the timer is known, or the timer is
initialised, and its benchmarks run if that succeeds. -/
inductive Pinned (machine : Machine (BenchImpl μ ρ ω α) α) (s : Settings) :
    Process (BenchImpl μ ρ ω α) → Prop
  | unpinned (what : Text) : Pinned machine s (Progress.throw (.exception what))
  | noTimer (cpu : Int32) (what : Text) : Pinned machine s ⟨[.pinned cpu],some (.exception what)⟩
  | listed (cpu : Int32) (name : Text) :
      Pinned machine s (Progress.just [.pinned cpu,.listEvents name])
  | failed (cpu : Int32) (what : Text) {timer : TimeredList (BenchImpl μ ρ ω α)}
      (found : getForTimer machine s = .ok timer) :
      Pinned machine s ⟨[.pinned cpu,.init timer.name s.argExtraevents.value],
        some (.exception what)⟩
  | ready {cpu : Int32} {timer : TimeredList (BenchImpl μ ρ ω α)}
      (chosen : cpuToPin machine s = .ok cpu) (set : machine.setaffinity (cpuSet cpu) = none)
      (found : getForTimer machine s = .ok timer) (inits : timer.init s.argExtraevents.value = none) :
      Pinned machine s ⟨.pinned cpu::.init timer.name s.argExtraevents.value::
        (runBenches machine s timer).done,(runBenches machine s timer).thrown⟩

lemma runPinned_pinned (machine : Machine (BenchImpl μ ρ ω α) α) (s : Settings) :
    Pinned machine s (runPinned machine s) := by
  rw [runPinned]
  cases hcpu : cpuToPin machine s with
  | error what => exact .unpinned what
  | ok cpu =>
    dsimp only
    rw [pinToThread]
    cases hset : machine.setaffinity (cpuSet cpu) with
    | some errno => exact .unpinned _
    | none =>
      cases hfound : getForTimer machine s with
      | error what => exact .noTimer cpu what
      | ok timer =>
        dsimp only
        split_ifs
        · exact .listed cpu timer.name
        · cases hinit : timer.init s.argExtraevents.value with
          | some what => exact .failed cpu what hfound
          | none => exact .ready hcpu hset hfound hinit

/-- Listing does nothing that running does. -/
lemma isRun_listBenches {a : Action (BenchImpl μ ρ ω α)} (h : a ∈ (listBenches machine s).done) :
    a.isRun = false := by
  rw [listBenches] at h
  cases hfound : getForTimer machine s with
  | error what =>
    rw [hfound] at h
    exact absurd h List.not_mem_nil
  | ok timer =>
    rw [hfound] at h
    rcases Progress.mem_andThen_done h with h | h
    · rw [List.mem_singleton.mp h]
      rfl
    · obtain ⟨group,-,h⟩ := Progress.mem_forEach_done h
      have hgroup : a = .listGroup group := by
        cases group with
        | plain g | oneshot g => exact List.mem_singleton.mp h
        | loadStore g =>
          rw [listGroup] at h
          split at h <;> exact List.mem_singleton.mp h
      rw [hgroup]
      rfl

/-- What comes with a run comes from the last branch. -/
lemma main_of_isRun {args : List Text} {a : Action (BenchImpl μ ρ ω α)}
    (h : a ∈ (main machine args).done) (ha : a.isRun = true) :
    ∃ s, parseCli args = .ok s ∧ main machine args = runPinned machine s ∧
      s.argListtimers = false ∧ s.argListbenches = false ∧ s.argClockoverhead = false ∧
      s.argInternalDumpTimer = false := by
  have hlisting : ∀ b : Action (BenchImpl μ ρ ω α), b.isRun = false → a ≠ b := by
    rintro b hb rfl
    rw [ha] at hb
    cases hb
  rw [main] at h ⊢
  cases hparse : parseCli args with
  | error e =>
    rw [hparse] at h
    cases e with
    | help flag => exact absurd (List.mem_singleton.mp h) (hlisting _ rfl)
    | parse what =>
      rcases List.mem_cons.mp h with h | h
      · exact absurd h (hlisting _ rfl)
      · exact absurd (List.mem_singleton.mp h) (hlisting _ rfl)
  | ok s =>
    rw [hparse] at h
    dsimp only at h ⊢
    rw [run] at h ⊢
    split_ifs at h ⊢ with htimers hbenches hclock hdump
    · exact absurd (List.mem_singleton.mp h) (hlisting _ rfl)
    · exact absurd rfl (hlisting a (isRun_listBenches h))
    · exact absurd (List.mem_singleton.mp h) (hlisting _ rfl)
    · exact absurd (List.mem_singleton.mp h) (hlisting _ rfl)
    · exact ⟨s,rfl,rfl,by simpa using htimers,by simpa using hbenches,by simpa using hclock,
        by simpa using hdump⟩

lemma getForTimer_name {timer : TimeredList (BenchImpl μ ρ ω α)}
    (h : getForTimer machine s = .ok timer) : timer ∈ machine.all ∧ timer.name = s.getTimerName := by
  rw [getForTimer] at h
  split at h
  · rename_i t ht
    cases h
    exact ⟨List.mem_of_find?_eq_some ht,by simpa using List.find?_some ht⟩
  · cases h

/-- The CPU is the one that is given or the first one that the process may run on. -/
lemma cpuToPin_ok (h : cpuToPin machine s = .ok cpu) :
    s.argPincpu.matched = true ∧ cpu = s.argPincpu.value ∨
    s.argPincpu.matched = false ∧ ∃ set first, machine.getaffinity = .ok set ∧
      cpu.toInt = (first : Fin cpuSetsize) ∧ set first = true ∧ ∀ i < first, set i = false := by
  rw [cpuToPin] at h
  split_ifs at h with hmatched
  · exact Or.inl ⟨hmatched,(Except.ok.inj h).symm⟩
  · refine Or.inr ⟨by simpa using hmatched,?_⟩
    rw [getFirstAvailableCpu] at h
    cases haffinity : machine.getaffinity with
    | error errno => rw [haffinity] at h; cases h
    | ok set =>
      rw [haffinity] at h
      dsimp only at h
      cases hfirst : (List.finRange cpuSetsize).find? set with
      | none => rw [hfirst] at h; cases h
      | some first =>
        rw [hfirst] at h
        cases h
        obtain ⟨hset,before,after,hsplit,hbefore⟩ := List.find?_eq_some_iff_append.mp hfirst
        refine ⟨set,first,rfl,?_,hset,fun i hi => ?_⟩
        · exact Int32.toInt_ofNat_of_lt (first.isLt.trans (by decide))
        · have hsorted := List.pairwise_lt_finRange cpuSetsize
          rw [hsplit] at hsorted
          have hmem : i ∈ before ++ first::after := hsplit ▸ List.mem_finRange i
          rcases List.mem_append.mp hmem with hmem | hmem
          · simpa using hbefore i hmem
          · rcases List.mem_cons.mp hmem with rfl | hmem
            · exact absurd hi (lt_irrefl i)
            · have hafter := List.pairwise_cons.mp (List.pairwise_append.mp hsorted).2.1
              exact absurd (hafter.1 i hmem) hi.asymm

/-- A benchmark is measured only if the process has been pinned to one CPU, the one that is given or
the first one that it may run on, and the timer with the name that is given has been initialised
then. -/
theorem measured_pinned (hempty : machine.setaffinity (fun _ => false) ≠ none) {args : List Text}
    {b : Benchmark (BenchImpl μ ρ ω α)} (hb : .measure b ∈ (main machine args).done) :
    ∃ s timer, ∃ cpu : Fin cpuSetsize, parseCli args = .ok s ∧
      (if s.argPincpu.matched then s.argPincpu.value.toInt = (cpu : ℕ)
        else ∃ set, machine.getaffinity = .ok set ∧ set cpu = true ∧ ∀ i < cpu, set i = false) ∧
      machine.setaffinity (fun i => i = cpu) = none ∧
      timer ∈ machine.all ∧ timer.name = s.getTimerName ∧
      timer.init s.argExtraevents.value = none ∧
      (main machine args).done = .pinned (Int32.ofNat cpu)::
        .init timer.name s.argExtraevents.value::.running timer.name::
        (contextRun machine.platform s.runArgs timer.groups).done.map .measure := by
  obtain ⟨s,hparse,hmain,-⟩ := main_of_isRun hb rfl
  rw [hmain] at hb ⊢
  have hpinned := runPinned_pinned machine s
  generalize runPinned machine s = p at hb hpinned
  cases hpinned with
  | unpinned what => exact absurd hb List.not_mem_nil
  | noTimer cpu what => simp at hb
  | listed cpu name => simp [Progress.just] at hb
  | failed cpu what found => simp at hb
  | @ready cpu timer chosen set found inits =>
    have hrange : ∃ i : Fin cpuSetsize, cpu.toInt = (i : ℕ) := by
      by_contra hout
      refine hempty ?_
      have hnone : cpuSet cpu = fun _ => false :=
        funext fun i => decide_eq_false fun h => hout ⟨i,h⟩
      rwa [hnone] at set
    obtain ⟨i,hi⟩ := hrange
    have hcpu : cpu = Int32.ofNat i := Int32.toInt_inj.mp
      (hi.trans (Int32.toInt_ofNat_of_lt (i.isLt.trans (by decide))).symm)
    have hmask : cpuSet cpu = fun j => decide (j = i) := by
      refine funext fun j => decide_eq_decide.mpr ?_
      rw [hi,Nat.cast_inj,Fin.val_inj,eq_comm]
    refine ⟨s,timer,i,hparse,?_,hmask ▸ set,(getForTimer_name found).1,(getForTimer_name found).2,
      inits,by rw [hcpu]; rfl⟩
    rcases cpuToPin_ok chosen with ⟨hmatched,rfl⟩ | ⟨hmatched,affinity,first,haffinity,hfirst,h⟩
    · rw [if_pos hmatched,hi]
    · rw [if_neg (by simp [hmatched])]
      obtain rfl : first = i := Fin.val_injective (Int.ofNat.inj (hfirst.symm.trans hi))
      exact ⟨affinity,haffinity,h⟩

end Pinned

/-- A host with the timer that uses the system clock, on which the process may only run on one
CPU. -/
def clockMachine : Machine (BenchImpl Unit Unit Unit Unit) Unit where
  all := [⟨"clock".toList,"Use the system clock".toList,[.plain basicGroup],fun _ => none⟩]
  platform := ⟨fun _ => true,()⟩
  getaffinity := .ok (· = 3)
  setaffinity set := if set 3 then none else some 22
  errnoToStr _ := "Invalid argument".toList

lemma parseCli_pinned : parseCli ["-c3".toList] = .ok { argPincpu := ⟨true,3⟩ } := by
  have hword : Word parser "-c3".toList [] [⟨argPincpu,['c'],some ['3']⟩] :=
    .shorts (c := 'c') (by decide) (.joined rfl rfl (by decide))
  exact (parseFrom_word hword).trans
    (ArgumentParser.parseFrom.eq_1 ..)

/-- The benchmark with the default tag is measured. -/
lemma main_clockMachine : main clockMachine ["-c3".toList] = Progress.just
    (.pinned 3::.init "clock".toList []::.running "clock".toList::basicGroup.benches.map .measure) := by
  have hset : clockMachine.setaffinity (cpuSet 3) = none := rfl
  have hrun : contextRun clockMachine.platform (Settings.runArgs { argPincpu := ⟨true,3⟩ })
      [.plain basicGroup] = Progress.just basicGroup.benches := by rfl
  have hcpu : cpuToPin clockMachine { argPincpu := ⟨true,3⟩ } = .ok 3 := if_pos rfl
  have hfound : getForTimer clockMachine { argPincpu := ⟨true,3⟩ } =
      .ok ⟨"clock".toList,"Use the system clock".toList,[.plain basicGroup],fun _ => none⟩ := rfl
  rw [main,parseCli_pinned]
  change runPinned clockMachine { argPincpu := ⟨true,3⟩ } = _
  rw [runPinned,hcpu]
  dsimp only
  rw [pinToThread,hset,hfound]
  dsimp only
  rw [if_neg (by decide),runBenches,hrun]
  rfl

theorem measured_pinned_clock : ∃ b : Benchmark (BenchImpl Unit Unit Unit Unit),
    .measure b ∈ (main clockMachine ["-c3".toList]).done ∧
    ∃ s timer, ∃ cpu : Fin cpuSetsize, parseCli ["-c3".toList] = .ok s ∧
      (if s.argPincpu.matched then s.argPincpu.value.toInt = (cpu : ℕ)
        else ∃ set, clockMachine.getaffinity = .ok set ∧ set cpu = true ∧
          ∀ i < cpu, set i = false) ∧
      clockMachine.setaffinity (fun i => i = cpu) = none ∧
      timer ∈ clockMachine.all ∧ timer.name = s.getTimerName ∧
      timer.init s.argExtraevents.value = none ∧
      (main clockMachine ["-c3".toList]).done = .pinned (Int32.ofNat cpu)::
        .init timer.name s.argExtraevents.value::.running timer.name::
        (contextRun clockMachine.platform s.runArgs timer.groups).done.map .measure := by
  have hmem : .measure (basicGroup.benches.head (by decide)) ∈
      (main clockMachine ["-c3".toList]).done := by
    rw [main_clockMachine]
    exact List.mem_cons_of_mem _ (List.mem_cons_of_mem _ (List.mem_cons_of_mem _
      (List.mem_map_of_mem (List.head_mem _))))
  exact ⟨_,hmem,measured_pinned (by decide) hmem⟩

end UarchBench.Cli
