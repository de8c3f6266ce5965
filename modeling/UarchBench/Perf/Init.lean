import UarchBench.Base.Progress
import UarchBench.Perf.Events
import UarchBench.Timing.Timer

/-! The perf timer: programming the requested events through the event library, whose answers may
depend on everything done before, and the three sequences that must stay aligned: headers, open
contexts and raw readings. -/
namespace UarchBench.Perf
open Base Util Timing

/-- The fields of `perf_event_attr` that the tool sets or prints. -/
structure PerfEventAttr where
  type : UInt32 := 0
  size : UInt32 := 0
  config : UInt64 := 0
  config1 : UInt64 := 0
  config2 : UInt64 := 0
  samplePeriod : UInt64 := 0
  sampleType : UInt64 := 0
  readFormat : UInt64 := 0
  pinned : Bool := false
  excludeKernel : Bool := false
  deriving DecidableEq, Repr

/-- The event library. A call may change the state of the library and of the kernel; `resolveEvent`
and `openAttr` have no result when the call fails. -/
structure Jevents (σ γ : Type) where
  readEvents : σ → ℤ × σ
  resolveEvent : Text → σ → Option PerfEventAttr × σ
  /-- `rdpmc_open_attr`, with the context it fills in. -/
  openAttr : PerfEventAttr → σ → Option γ × σ
  /-- `ctx.buf->index`. -/
  index : γ → σ → UInt32
  close : γ → σ → σ

structure RunningEvent (γ : Type) where
  ctx : γ
  name : NamedEvent
  deriving DecidableEq, Repr

/-- What `PerfTimer::init` leaves behind: the global `running_events`, never more than a snapshot
has readings, and the metric names. -/
structure PerfTimer (γ : Type) where
  runningEvents : List (RunningEvent γ)
  metricNames : List Text
  runningEvents_le : runningEvents.length ≤ readingCount

section Init
variable {σ γ : Type} (J : Jevents σ γ)

def doReadEvents (s : σ) : Except String σ :=
  let (res,s) := J.readEvents s
  if res ≠ 0 then .error ("jevents failed while reading events, error " ++ toString res)
  else .ok s

/-- `PERF_TYPE_HARDWARE` and `PERF_COUNT_HW_CPU_CYCLES` are zero. -/
def cyclesAttr : PerfEventAttr := { size := 64, pinned := true }

/-- Open the cycles event, a second time without the kernel if that fails; the flag tells which. -/
def initCycles (s : σ) : Except String (γ × Bool × σ) :=
  match J.openAttr cyclesAttr s with
  | (some ctx,s) => .ok (ctx,false,s)
  | (none,s) =>
    match J.openAttr { cyclesAttr with excludeKernel := true } s with
    | (some ctx,s) => .ok (ctx,true,s)
    | (none,_) => .error "rdpmc_open cycles failed, checked stderr for more"

def fixupEvent (attr : PerfEventAttr) (userOnly : Bool) : PerfEventAttr :=
  { attr with
    samplePeriod := 0
    pinned := true
    excludeKernel := if userOnly then true else attr.excludeKernel }

/-- Resolve, open and check one event: its context, unless one of these fails. -/
def programEvent (userOnly : Bool) (e : Text) (s : σ) : Option γ × σ :=
  match J.resolveEvent e s with
  | (none,s) => (none,s)
  | (some attr,s) =>
    match J.openAttr (fixupEvent attr userOnly) s with
    | (none,s) => (none,s)
    | (some ctx,s) => if J.index ctx s = 0 then (none,J.close ctx s) else (some ctx,s)

/-- The body of the loop over the requested events. -/
def addRunning (userOnly : Bool) (running : List (RunningEvent γ) × σ) (namedEvent : NamedEvent) :
    List (RunningEvent γ) × σ :=
  if namedEvent.name.isEmpty then running
  else if running.1.length = readingCount then running
  else
    match programEvent J userOnly namedEvent.name running.2 with
    | (none,s) => (running.1,s)
    | (some ctx,s) => (running.1 ++ [⟨ctx,namedEvent⟩],s)

/-- `PerfTimer::init`, which the program calls once, with the string of extra events. -/
def init (extraEvents : Text) (s : σ) : Except String (PerfTimer γ × σ) := do
  let s ← doReadEvents J s
  let (ctx,userOnly,s) ← initCycles J s
  let running := [⟨ctx,NamedEvent.ofName "Cycles".toList⟩]
  let events ← parsePerfEvents extraEvents
  let (running,s) := events.foldl (addRunning J userOnly) (running,s)
  if h : running.length ≤ readingCount then
    return (⟨running,running.map (fun e => e.name.header),h⟩,s)
  else throw "running_events.size() <= PerfNow::READING_COUNT"

end Init

section Readings
variable {γ δ : Type} (timer : PerfTimer γ)

/-- `PerfTimer::now`: `read i` is what `rdpmc_read` returns for the context that is read as number
`i` of this snapshot, and `unset` is what the other readings happen to hold. -/
def now (read : ℕ → γ → UInt64) (unset : Fin readingCount → Int64) : PerfNow where
  readings i :=
    match timer.runningEvents[i.val]? with
    | some e => (read i e.ctx).toInt64
    | none => unset i

/-- `PerfTimer::to_result`, with the conversion to `double`. -/
def toResult (toDouble : Int64 → δ) (delta : PerfNow) : List δ :=
  (List.finRange timer.runningEvents.length).map
    (fun i => toDouble (delta.readings (i.castLE timer.runningEvents_le)))

/-- The value of a running event is the change of its own counter. -/
theorem toResult_get (toDouble : Int64 → δ) (readA readB : ℕ → γ → UInt64)
    (unsetA unsetB : Fin readingCount → Int64) {i : ℕ} {e : RunningEvent γ}
    (hi : timer.runningEvents[i]? = some e) :
    (toResult timer toDouble
      (perfTimer.delta (now timer readB unsetB) (now timer readA unsetA)))[i]? =
        some (toDouble ((readB i e.ctx).toInt64-(readA i e.ctx).toInt64)) := by
  obtain ⟨hlt,hget⟩ := List.getElem?_eq_some_iff.mp hi
  rw [toResult,List.getElem?_map,List.getElem?_eq_getElem (by rwa [List.length_finRange]),
    List.getElem_finRange]
  simp [perfTimer,now,hget]

end Readings

section Programmed
variable {σ γ : Type} (J : Jevents σ γ) (userOnly : Bool)

/-- The nonempty events that can be programmed, tried in request order without a limit. -/
def programmed : List NamedEvent → σ → List (RunningEvent γ)
  | [], _ => []
  | e::events, s =>
    if e.name.isEmpty then programmed events s
    else
      match programEvent J userOnly e.name s with
      | (none,s) => programmed events s
      | (some ctx,s) => ⟨ctx,e⟩::programmed events s

/-- The loop keeps as many of them as there are readings left: failed and empty events take up no
slot. -/
theorem foldl_addRunning (events : List NamedEvent) (running : List (RunningEvent γ)) (s : σ)
    (hle : running.length ≤ readingCount) :
    (events.foldl (addRunning J userOnly) (running,s)).1 =
      running ++ (programmed J userOnly events s).take (readingCount-running.length) := by
  induction events generalizing running s with
  | nil => simp [programmed]
  | cons e events ih =>
    rw [List.foldl_cons,addRunning,programmed]
    by_cases hempty : e.name.isEmpty = true
    · rw [if_pos hempty,if_pos hempty]
      exact ih running s hle
    · rw [if_neg hempty,if_neg hempty]
      by_cases hfull : running.length = readingCount
      · rw [if_pos hfull,ih running s hle,hfull,Nat.sub_self,List.take_zero,List.take_zero]
      · rw [if_neg hfull]
        rcases hprogram : programEvent J userOnly e.name s with ⟨_ | ctx,s'⟩
        · simp only
          exact ih running s' hle
        · have hroom : readingCount-running.length = readingCount-(running.length+1)+1 := by
            omega
          simp only
          rw [ih _ s' (by rw [List.length_append,List.length_singleton]; omega),
            List.length_append,List.length_singleton,hroom,List.take_succ_cons,List.append_assoc]
          rfl

/-- The context of a programmed event is the one that was opened for it. -/
theorem programmed_opened (events : List NamedEvent) (s : σ) :
    ∀ e ∈ programmed J userOnly events s,
      e.name ∈ events ∧ ∃ t t', programEvent J userOnly e.name.name t = (some e.ctx,t') := by
  induction events generalizing s with
  | nil => exact List.forall_mem_nil _
  | cons e events ih =>
    have htail : ∀ t, ∀ e' ∈ programmed J userOnly events t, e'.name ∈ e::events ∧
        ∃ t t', programEvent J userOnly e'.name.name t = (some e'.ctx,t') := fun t e' he' =>
      ⟨List.mem_cons_of_mem _ (ih t e' he').1,(ih t e' he').2⟩
    rw [programmed]
    split_ifs
    · exact htail s
    · rcases hprogram : programEvent J userOnly e.name s with ⟨_ | ctx,s'⟩
      · exact htail s'
      · intro e' he'
        rcases List.mem_cons.mp he' with rfl | he'
        · exact ⟨List.mem_cons_self,s,s',hprogram⟩
        · exact htail s' e' he'

end Programmed

/-- The running events are the cycles event and the first eight events that could be programmed, the
metric names are their headers, and every value of a result is the change of the counter opened for
the event of that name. -/
structure Aligned {σ γ : Type} (J : Jevents σ γ) (timer : PerfTimer γ) (events : List NamedEvent)
    (ctx : γ) (userOnly : Bool) (s : σ) : Prop where
  running : timer.runningEvents = ⟨ctx,NamedEvent.ofName "Cycles".toList⟩::
    (programmed J userOnly events s).take maxExtraEvents
  opened : ∀ e ∈ timer.runningEvents.tail,
    e.name ∈ events ∧ ∃ t t', programEvent J userOnly e.name.name t = (some e.ctx,t')
  names : timer.metricNames = timer.runningEvents.map (fun e => e.name.header)
  first : timer.metricNames[0]? = some "Cycles".toList
  count : timer.metricNames.length = timer.runningEvents.length
  bound : timer.metricNames.length ≤ readingCount
  results : ∀ (δ : Type) (toDouble : Int64 → δ) (readA readB : ℕ → γ → UInt64)
    (unsetA unsetB : Fin readingCount → Int64),
    (toResult timer toDouble
      (perfTimer.delta (now timer readB unsetB) (now timer readA unsetA))).length =
        timer.metricNames.length
  values : ∀ (δ : Type) (toDouble : Int64 → δ) (readA readB : ℕ → γ → UInt64)
    (unsetA unsetB : Fin readingCount → Int64) i e, timer.runningEvents[i]? = some e →
    (toResult timer toDouble
      (perfTimer.delta (now timer readB unsetB) (now timer readA unsetA)))[i]? =
        some (toDouble ((readB i e.ctx).toInt64-(readA i e.ctx).toInt64))

/-- A library that numbers the contexts; it does not know the event `bad`, and the second context it
hands out has no index. -/
def countingJevents : Jevents ℕ ℕ where
  readEvents s := (0,s)
  resolveEvent e s := (if e = "bad".toList then none else some {},s)
  openAttr _ s := (some s,s+1)
  index ctx _ := if ctx = 1 then 0 else 1
  close _ s := s

end UarchBench.Perf
