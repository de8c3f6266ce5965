import UarchBench.Timing.Timer
import Mathlib.Algebra.BigOperators.Group.List.Basic
import Mathlib.Algebra.Ring.Int.Defs

/-! The stopwatch `SimpleTimerT` as a state machine over method calls, each made at a reading of
the clock, against the intervals that its history completed. -/
namespace UarchBench.Stopwatch
open Timing

inductive State
  | started
  | stopped
  deriving DecidableEq, Repr

structure SimpleTimer where
  elapsed : Int64
  lastStamp : Int64
  mode : State
  deriving DecidableEq, Repr

/-- A method changes the object and may throw; what it changed before stays. -/
abbrev Method (α : Type) := ExceptT String (StateM SimpleTimer) α

def checkState (expected : State) (msg : String) : Method Unit := do
  let t ← get
  if t.mode ≠ expected then
    if t.mode ≠ .started ∧ t.mode ≠ .stopped then throw "bad state (maybe uninit?)"
    else throw msg

def start (nanos : Int64) : Method Unit := do
  checkState .stopped "counter already started"
  modify (fun t => { t with lastStamp := nanos })
  modify (fun t => { t with mode := .started })

def stop (nanos : Int64) : Method Unit := do
  checkState .started "counter already stopped"
  modify (fun t => { t with elapsed := t.elapsed+(nanos-t.lastStamp) })
  modify (fun t => { t with mode := .stopped })

def isStarted : Method Bool := do
  let t ← get
  return t.mode = .started

/-- The clock is only read while the timer is running. -/
def elapsedNanos (nanos : Int64) : Method Int64 := do
  let running ← isStarted
  let t ← get
  return t.elapsed+(if running then nanos-t.lastStamp else 0)

/-- The constructor, where the last stamp is not initialised. -/
def create (createStarted : Bool) (unset nanos : Int64) : SimpleTimer :=
  let t := ⟨0,unset,.stopped⟩
  if createStarted then ((start nanos).run t).2 else t

inductive Call
  | start
  | stop
  | isStarted
  | elapsedNanos
  deriving DecidableEq, Repr

inductive Answer
  | unit
  | bool (b : Bool)
  | nanos (n : Int64)
  deriving DecidableEq, Repr

def Call.perform (nanos : Int64) : Call → Method Answer
  | start => do Stopwatch.start nanos; return .unit
  | stop => do Stopwatch.stop nanos; return .unit
  | isStarted => do return .bool (← Stopwatch.isStarted)
  | elapsedNanos => do return .nanos (← Stopwatch.elapsedNanos nanos)

/-- A call at a reading of the clock, on a timer: what it returns or throws, and the timer after
it. -/
def step (t : SimpleTimer) (call : Call × Int64) : Except String Answer × SimpleTimer :=
  (call.1.perform call.2).run t

def after (t : SimpleTimer) (calls : List (Call × Int64)) : SimpleTimer :=
  calls.foldl (fun t call => (step t call).2) t

theorem step_start (t : SimpleTimer) (now : Int64) :
    step t (.start,now) =
      if t.mode = .stopped then (.ok .unit,{ t with lastStamp := now, mode := .started })
      else (.error "counter already started",t) := by
  obtain ⟨elapsed,stamp,mode⟩ := t
  cases mode <;> rfl

theorem step_stop (t : SimpleTimer) (now : Int64) :
    step t (.stop,now) =
      if t.mode = .started then
        (.ok .unit,{ t with elapsed := t.elapsed+(now-t.lastStamp), mode := .stopped })
      else (.error "counter already stopped",t) := by
  obtain ⟨elapsed,stamp,mode⟩ := t
  cases mode <;> rfl

theorem step_isStarted (t : SimpleTimer) (now : Int64) :
    step t (.isStarted,now) = (.ok (.bool (t.mode = .started)),t) := rfl

theorem step_elapsedNanos (t : SimpleTimer) (now : Int64) :
    step t (.elapsedNanos,now) =
      (.ok (.nanos (t.elapsed+(if t.mode = .started then now-t.lastStamp else 0))),t) := by
  obtain ⟨elapsed,stamp,mode⟩ := t
  cases mode <;> rfl

/-- The intervals between a start and the stop that ended it, and the start of a running one. -/
structure History where
  completed : List (ℤ × ℤ)
  running : Option ℤ

def History.empty : History := ⟨[],none⟩

/-- Only the legal calls of `start` and `stop` leave a trace. -/
def History.next (h : History) (call : Call × Int64) : History :=
  match call.1, h.running with
  | .start, none => { h with running := some call.2.toInt }
  | .stop, some s => ⟨h.completed ++ [(s,call.2.toInt)],none⟩
  | _, _ => h

def History.after (h : History) (calls : List (Call × Int64)) : History := calls.foldl next h

/-- The time in the completed intervals. -/
def History.total (h : History) : ℤ := (h.completed.map (fun i => i.2-i.1)).sum

/-- The exact time at a reading of the clock. -/
def History.elapsed (h : History) (now : ℤ) : ℤ :=
  h.total+match h.running with
    | some s => now-s
    | none => 0

/-- The fields represent the history. -/
structure Represents (t : SimpleTimer) (h : History) : Prop where
  total : t.elapsed.toInt = h.total
  stopped : t.mode = .stopped ↔ h.running = none
  stamp : ∀ s, h.running = some s → t.lastStamp.toInt = s

/-- No time that the timer computes overflows: those of the calls of `stop` and `elapsedNanos`. -/
def NoOverflow (h : History) (calls : List (Call × Int64)) : Prop :=
  ∀ before call now after, calls = before ++ (call,now)::after →
    call = .stop ∨ call = .elapsedNanos → Fits ((h.after before).elapsed now.toInt)

lemma History.after_snoc (h : History) (calls : List (Call × Int64)) (call : Call × Int64) :
    h.after (calls ++ [call]) = (h.after calls).next call := by
  rw [after,List.foldl_append]
  rfl

lemma History.after_append (h : History) (calls calls' : List (Call × Int64)) :
    h.after (calls ++ calls') = (h.after calls).after calls' := List.foldl_append

lemma after_snoc (t : SimpleTimer) (calls : List (Call × Int64)) (call : Call × Int64) :
    after t (calls ++ [call]) = (step (after t calls) call).2 := by
  rw [after,List.foldl_append]
  rfl

/-- The sum is exact if it fits, whatever happens in between. -/
lemma toInt_add_sub_of_fits {e a b : Int64} {z : ℤ} (h : e.toInt+(a.toInt-b.toInt) = z)
    (hz : Fits z) : (e+(a-b)).toInt = z := by
  rw [Int64.toInt_add,Int64.toInt_sub,Int.add_bmod_bmod,h,Int.bmod_eq_of_le]
  · have := hz.1
    omega
  · have := hz.2
    omega

lemma Represents.started {t : SimpleTimer} {h : History} (ht : Represents t h) {s : ℤ}
    (hs : h.running = some s) : t.mode = .started := by
  cases hmode : t.mode with
  | started => rfl
  | stopped =>
    rw [ht.stopped.mp hmode] at hs
    cases hs

/-- The value of `elapsedNanos`. -/
theorem Represents.elapsed {t : SimpleTimer} {h : History} (ht : Represents t h) (now : Int64)
    (hfits : Fits (h.elapsed now.toInt)) :
    (t.elapsed+(if t.mode = .started then now-t.lastStamp else 0)).toInt =
      h.elapsed now.toInt := by
  cases hrunning : h.running with
  | none =>
    rw [ht.stopped.mpr hrunning,if_neg (by decide),Int64.add_zero,ht.total]
    simp only [History.elapsed,hrunning,add_zero]
  | some s =>
    rw [if_pos (ht.started hrunning)]
    refine toInt_add_sub_of_fits ?_ hfits
    simp only [ht.total,ht.stamp s hrunning,History.elapsed,hrunning]

/-- What `stop` accumulates. -/
lemma History.total_stop (h : History) {s : ℤ} (hs : h.running = some s) (now : Int64) :
    (h.next (.stop,now)).total = h.elapsed now.toInt := by
  simp only [next,hs,total,elapsed,List.map_append,List.sum_append,List.map_cons,List.map_nil,
    List.sum_cons,List.sum_nil,add_zero]

/-- One call keeps the representation. -/
theorem Represents.next {t : SimpleTimer} {h : History} (ht : Represents t h)
    (call : Call × Int64)
    (hfits : call.1 = .stop → Fits (h.elapsed call.2.toInt)) :
    Represents (step t call).2 (h.next call) := by
  obtain ⟨call,now⟩ := call
  cases call with
  | isStarted => exact ht
  | elapsedNanos =>
    rw [step_elapsedNanos]
    exact ht
  | start =>
    rw [step_start]
    cases hrunning : h.running with
    | none =>
      rw [if_pos (ht.stopped.mpr hrunning)]
      simp only [History.next,hrunning]
      exact ⟨ht.total,by simp,fun s hs => by rw [← Option.some.inj hs]⟩
    | some s =>
      rw [ht.started hrunning,if_neg (by decide)]
      simp only [History.next,hrunning]
      exact ht
  | stop =>
    rw [step_stop]
    cases hrunning : h.running with
    | none =>
      rw [ht.stopped.mpr hrunning,if_neg (by decide)]
      simp only [History.next,hrunning]
      exact ht
    | some s =>
      have hvalue := ht.elapsed now (hfits rfl)
      rw [if_pos (ht.started hrunning)] at hvalue ⊢
      rw [← h.total_stop hrunning] at hvalue
      refine ⟨hvalue,?_,fun s' hs' => ?_⟩
      · simp [History.next,hrunning]
      · simp [History.next,hrunning] at hs'

/-- A run keeps the representation. -/
theorem Represents.after {t : SimpleTimer} {h : History} (ht : Represents t h)
    {calls : List (Call × Int64)} (hfits : NoOverflow h calls) :
    Represents (after t calls) (h.after calls) := by
  induction calls using List.reverseRecOn with
  | nil => exact ht
  | append_singleton calls call ih =>
    rw [after_snoc,History.after_snoc]
    refine (ih fun before c now rest hcalls => ?_).next call fun hstop => ?_
    · exact hfits before c now (rest ++ [call]) (by rw [hcalls,List.append_assoc]; rfl)
    · exact hfits calls call.1 call.2 [] rfl (.inl hstop)

/-- Between two calls the exact time grows by no more than the clock. -/
lemma History.elapsed_idle (h : History) {now now' : ℤ} (hle : now ≤ now') :
    h.elapsed now ≤ h.elapsed now' ∧ h.elapsed now' ≤ h.elapsed now+(now'-now) := by
  cases hrunning : h.running with
  | none =>
    simp only [elapsed,hrunning]
    omega
  | some s =>
    simp only [elapsed,hrunning]
    omega

/-- At its own reading a call does not change the exact time. -/
lemma History.next_elapsed (h : History) (call : Call) (now : Int64) :
    (h.next (call,now)).elapsed now.toInt = h.elapsed now.toInt := by
  cases call with
  | start =>
    cases hrunning : h.running with
    | none => simp only [next,elapsed,hrunning,total,sub_self]
    | some s => simp only [next,hrunning]
  | stop =>
    cases hrunning : h.running with
    | none => simp only [next,hrunning]
    | some s =>
      have hstop := h.total_stop hrunning now
      simp only [next,hrunning] at hstop ⊢
      rw [← hstop,elapsed,add_zero]
  | isStarted => rfl
  | elapsedNanos => rfl

/-- Over a run with readings in order the exact time does not decrease, and grows by no more than
the clock. -/
theorem History.elapsed_after (h : History) (calls : List (Call × Int64)) {now now' : Int64}
    (hsorted : (now::(calls.map Prod.snd ++ [now'])).Pairwise (fun a b => a.toInt ≤ b.toInt)) :
    h.elapsed now.toInt ≤ (h.after calls).elapsed now'.toInt ∧
      (h.after calls).elapsed now'.toInt ≤ h.elapsed now.toInt+(now'.toInt-now.toInt) := by
  induction calls generalizing h now with
  | nil => exact h.elapsed_idle (List.rel_of_pairwise_cons hsorted (by simp))
  | cons c calls ih =>
    obtain ⟨c,now₂⟩ := c
    obtain ⟨hfirst,hrest⟩ := List.pairwise_cons.mp hsorted
    obtain ⟨hidle,hidle'⟩ := h.elapsed_idle (hfirst now₂ (by simp))
    obtain ⟨hrun,hrun'⟩ := ih (h.next (c,now₂)) hrest
    simp only [h.next_elapsed] at hrun hrun'
    change _ ≤ ((h.next (c,now₂)).after calls).elapsed _ ∧
      ((h.next (c,now₂)).after calls).elapsed _ ≤ _
    omega

/-- A stopped timer keeps its history until it is started again. -/
lemma History.after_of_stopped {h : History} (hstopped : h.running = none)
    {mid : List (Call × Int64)} (hmid : ∀ c ∈ mid, c.1 ≠ .start) : h.after mid = h := by
  induction mid with
  | nil => rfl
  | cons c mid ih =>
    have hnext : h.next c = h := by
      obtain ⟨c,now⟩ := c
      have hc := hmid (c,now) List.mem_cons_self
      cases c with
      | start => exact absurd rfl hc
      | stop => simp only [next,hstopped]
      | isStarted => rfl
      | elapsedNanos => rfl
    rw [after,List.foldl_cons,hnext]
    exact ih (fun c' hc' => hmid c' (List.mem_cons_of_mem _ hc'))

/-- The history of the constructor. -/
def History.initial (createStarted : Bool) (now : Int64) : History :=
  ⟨[],if createStarted then some now.toInt else none⟩

lemma create_represents (createStarted : Bool) (unset now : Int64) :
    Represents (create createStarted unset now) (History.initial createStarted now) := by
  cases createStarted with
  | false => exact ⟨rfl,by simp [create,History.initial],fun s hs => by cases hs⟩
  | true =>
    refine ⟨rfl,?_,fun s hs => Option.some.inj hs⟩
    change State.started = .stopped ↔ some now.toInt = none
    simp

/-- What a stopwatch does in a run: at each point of it the calls see the history up to there. -/
structure Lawful (t : SimpleTimer) (h : History) (calls : List (Call × Int64)) : Prop where
  elapsed : ∀ before now rest, calls = before ++ (.elapsedNanos,now)::rest →
    ∃ n, (step (after t before) (.elapsedNanos,now)).1 = .ok (.nanos n) ∧
      n.toInt = (h.after before).elapsed now.toInt
  monotone : ∀ before now mid now' rest n n',
    calls = before ++ (.elapsedNanos,now)::(mid ++ (.elapsedNanos,now')::rest) →
    (step (after t before) (.elapsedNanos,now)).1 = .ok (.nanos n) →
    (step (after t (before ++ (.elapsedNanos,now)::mid)) (.elapsedNanos,now')).1 =
      .ok (.nanos n') → n.toInt ≤ n'.toInt
  still : ∀ before now mid now' rest n n',
    calls = before ++ (.elapsedNanos,now)::(mid ++ (.elapsedNanos,now')::rest) →
    (after t before).mode = .stopped → (∀ c ∈ mid, c.1 ≠ .start) →
    (step (after t before) (.elapsedNanos,now)).1 = .ok (.nanos n) →
    (step (after t (before ++ (.elapsedNanos,now)::mid)) (.elapsedNanos,now')).1 =
      .ok (.nanos n') → n = n'
  isStarted : ∀ before now rest, calls = before ++ (.isStarted,now)::rest →
    (step (after t before) (.isStarted,now)).1 = .ok (.bool (h.after before).running.isSome)
  start : ∀ before now rest, calls = before ++ (.start,now)::rest →
    ((∃ e, (step (after t before) (.start,now)).1 = .error e) ↔
      (h.after before).running ≠ none)
  stop : ∀ before now rest, calls = before ++ (.stop,now)::rest →
    ((∃ e, (step (after t before) (.stop,now)).1 = .error e) ↔ (h.after before).running = none)
  unchanged : ∀ t' call e, (step t' call).1 = .error e → (step t' call).2 = t'

theorem step_error (t : SimpleTimer) (call : Call × Int64) {e : String}
    (he : (step t call).1 = .error e) : (step t call).2 = t := by
  obtain ⟨call,now⟩ := call
  cases call with
  | start =>
    rw [step_start] at he ⊢
    split_ifs at he ⊢
    rfl
  | stop =>
    rw [step_stop] at he ⊢
    split_ifs at he ⊢
    rfl
  | isStarted => rfl
  | elapsedNanos => rw [step_elapsedNanos]

section Lawful
variable {t : SimpleTimer} {h : History} (ht : Represents t h) {calls : List (Call × Int64)}
  (hfits : NoOverflow h calls)
include ht hfits

/-- The representation holds at every point of the run. -/
lemma represents_before {before rest : List (Call × Int64)} (hcalls : calls = before ++ rest) :
    Represents (after t before) (h.after before) := by
  refine ht.after fun b c now r hb => hfits b c now (r ++ rest) ?_
  rw [hcalls,hb,List.append_assoc]
  rfl

lemma elapsedNanos_exact {before rest : List (Call × Int64)} {now : Int64}
    (hcalls : calls = before ++ (.elapsedNanos,now)::rest) :
    ∃ n, (step (after t before) (.elapsedNanos,now)).1 = .ok (.nanos n) ∧
      n.toInt = (h.after before).elapsed now.toInt := by
  refine ⟨_,by rw [step_elapsedNanos],?_⟩
  exact (represents_before ht hfits hcalls).elapsed now
    (hfits before .elapsedNanos now rest hcalls (.inr rfl))

lemma elapsedNanos_value {before rest : List (Call × Int64)} {now n : Int64}
    (hcalls : calls = before ++ (.elapsedNanos,now)::rest)
    (hn : (step (after t before) (.elapsedNanos,now)).1 = .ok (.nanos n)) :
    n.toInt = (h.after before).elapsed now.toInt := by
  obtain ⟨m,hm,hvalue⟩ := elapsedNanos_exact ht hfits hcalls
  obtain rfl : m = n := by
    rw [hm] at hn
    exact Answer.nanos.inj (Except.ok.inj hn)
  exact hvalue

/-- Two queries of a run, the second one after the calls `mid`. -/
lemma elapsedNanos_later {before mid rest : List (Call × Int64)} {now now' n' : Int64}
    (hcalls : calls = before ++ (.elapsedNanos,now)::(mid ++ (.elapsedNanos,now')::rest))
    (hn' : (step (after t (before ++ (.elapsedNanos,now)::mid)) (.elapsedNanos,now')).1 =
      .ok (.nanos n')) :
    n'.toInt =
      ((h.after before).after ((.elapsedNanos,now)::mid)).elapsed now'.toInt := by
  have hcalls' : calls = (before ++ (.elapsedNanos,now)::mid) ++ (.elapsedNanos,now')::rest := by
    rw [hcalls,List.append_assoc,List.cons_append]
  rw [← History.after_append]
  exact elapsedNanos_value ht hfits hcalls' hn'

/-- The laws hold for any run whose readings do not decrease. -/
theorem lawful (hsorted : (calls.map Prod.snd).Pairwise (fun a b => a.toInt ≤ b.toInt)) :
    Lawful t h calls := by
  refine ⟨fun before now rest => elapsedNanos_exact ht hfits,?_,?_,?_,?_,?_,
    fun t' call e he => step_error t' call he⟩
  · intro before now mid now' rest n n' hcalls hn hn'
    rw [elapsedNanos_value ht hfits hcalls hn,elapsedNanos_later ht hfits hcalls hn']
    refine ((h.after before).elapsed_after mid (hsorted.sublist ?_)).1
    rw [hcalls,List.map_append,List.map_cons,List.map_append,List.map_cons]
    have hlast : [now'].Sublist (now'::rest.map Prod.snd) := (List.nil_sublist _).cons_cons now'
    exact ((hlast.append_left _).cons_cons now).trans (List.sublist_append_right _ _)
  · intro before now mid now' rest n n' hcalls hstopped hmid hn hn'
    have hrunning := (represents_before ht hfits hcalls).stopped.mp hstopped
    have hquery : ∀ c ∈ (Call.elapsedNanos,now)::mid, c.1 ≠ .start :=
      List.forall_mem_cons.mpr ⟨by simp,hmid⟩
    apply Int64.toInt_inj.mp
    rw [elapsedNanos_value ht hfits hcalls hn,elapsedNanos_later ht hfits hcalls hn',
      History.after_of_stopped hrunning hquery]
    simp only [History.elapsed,hrunning]
  · intro before now rest hcalls
    have hrep := represents_before ht hfits hcalls
    rw [step_isStarted]
    cases hrunning : (h.after before).running with
    | none => rw [hrep.stopped.mpr hrunning]; rfl
    | some s => rw [hrep.started hrunning]; rfl
  · intro before now rest hcalls
    have hrep := represents_before ht hfits hcalls
    rw [step_start]
    cases hrunning : (h.after before).running with
    | none => simp [hrep.stopped.mpr hrunning]
    | some s => simp [hrep.started hrunning]
  · intro before now rest hcalls
    have hrep := represents_before ht hfits hcalls
    rw [step_stop]
    cases hrunning : (h.after before).running with
    | none => simp [hrep.stopped.mpr hrunning]
    | some s => simp [hrep.started hrunning]

end Lawful

/-- If the readings span less than `2^63` nanoseconds, nothing overflows. -/
theorem noOverflow_of_span (createStarted : Bool) (now : Int64) (calls : List (Call × Int64))
    (hsorted : (now::calls.map Prod.snd).Pairwise (fun a b => a.toInt ≤ b.toInt))
    (hspan : ∀ r ∈ calls.map Prod.snd, r.toInt-now.toInt < 2^63) :
    NoOverflow (History.initial createStarted now) calls := by
  intro before call r rest hcalls _
  have hzero : (History.initial createStarted now).elapsed now.toInt = 0 := by
    cases createStarted <;> simp [History.initial,History.elapsed,History.total]
  rw [hcalls,List.map_append,List.map_cons] at hsorted hspan
  have hinit : (before.map Prod.snd ++ [r]).Sublist
      (before.map Prod.snd ++ r::rest.map Prod.snd) :=
    ((List.nil_sublist _).cons_cons r).append_left _
  obtain ⟨hlow,hhigh⟩ := (History.initial createStarted now).elapsed_after before
    (hsorted.sublist (hinit.cons_cons now))
  have hr := hspan r (by simp)
  rw [hzero] at hlow hhigh
  exact ⟨by omega,by omega⟩

/-- A stopwatch obeys its laws from its construction on, for every sequence of calls, legal or not,
at readings of the clock that do not decrease. -/
theorem simpleTimer_lawful (createStarted : Bool) (unset now : Int64)
    (calls : List (Call × Int64))
    (hsorted : (now::calls.map Prod.snd).Pairwise (fun a b => a.toInt ≤ b.toInt))
    (hfits : NoOverflow (History.initial createStarted now) calls) :
    Lawful (create createStarted unset now) (History.initial createStarted now) calls :=
  lawful (create_represents createStarted unset now) hfits hsorted.of_cons

/-- A run with two illegal calls. -/
theorem simpleTimer_lawful_restart :
    Lawful (create true 0 5) (History.initial true 5)
      [(.start,6),(.elapsedNanos,7),(.stop,9),(.stop,10),(.elapsedNanos,12),(.start,20),
        (.elapsedNanos,21)] :=
  simpleTimer_lawful true 0 5 _ (by decide)
    (noOverflow_of_span true 5 _ (by decide) (by simp))

end UarchBench.Stopwatch
