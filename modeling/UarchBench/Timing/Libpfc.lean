import UarchBench.Base.LastWrite
import UarchBench.Base.Progress
import UarchBench.Util.Split
import Mathlib.Data.List.Nodup

/-! The libpfc timer: events get slots in order, the slots are used as indexes into the
configuration of the hardware, and again into the counters when results are read. -/
namespace UarchBench.Libpfc
open Base Util

abbrev fixedCounters : ℕ := 3
abbrev gpCounters : ℕ := 4
abbrev totalCounters : ℕ := fixedCounters+gpCounters

/-- The code that enables a fixed counter. -/
def fixedCounterEnable : UInt64 := 0x2

structure PmuEvent where
  fullName : Text
  shortName : Text
  code : UInt64
  slot : UInt32
  deriving DecidableEq, Repr

def makeShortName (full : Text) : Text :=
  let components := (splitOnString full "::".toList).getD []
  let trimmed := if 1 < components.length then components.getD 1 [] else full
  substr trimmed 0 (min 6 full.length)

/-- The constructor; the default slot is `-1`. -/
def PmuEvent.new (fullName : Text) (code : UInt64) (slot : UInt32 := -1) : PmuEvent :=
  ⟨fullName,makeShortName fullName,code,slot⟩

/-- The codes written to the counters. -/
abbrev Cfg := Fin totalCounters → UInt64

/-- What the timer uses of libpfc; error codes are zero on success. -/
structure Library where
  fixedcntCpuClkUnhalted : UInt32
  pfcInit : ℤ
  pfcWrCfgs : Cfg → ℤ
  pfcErrorString : ℤ → String

inductive Failure
  | threw (what : String)
  | assertion (condition : String)
  deriving DecidableEq, Repr

/-- The timer after `init`: the events it reads, each with a slot of the hardware. -/
structure LibpfcTimer where
  allEvents : List PmuEvent
  metricNames : List Text
  slots_lt : ∀ e ∈ allEvents, e.slot.toNat < totalCounters

/-- The body of the loop over the extra events, on `all_events` and `ecount`. -/
def keepEvent (s : List PmuEvent × ℕ) (event : PmuEvent) : List PmuEvent × ℕ :=
  if gpCounters ≤ s.2 then s
  else (s.1 ++ [{ event with slot := UInt32.ofNat (fixedCounters+s.2) }],s.2+1)

/-- `cfg[event.slot] = event.code`. -/
def setCfg (cfg : Cfg) (event : PmuEvent) : Cfg :=
  fun i => if event.slot.toNat = i.val then event.code else cfg i

/-- The event that is always read. -/
def cyclesEvent (L : Library) : PmuEvent :=
  PmuEvent.new "Cycles".toList fixedCounterEnable L.fixedcntCpuClkUnhalted

/-- `LibpfcTimer::init` with the events that `parseExtraEvents` returned: the timer, and the
configuration written to the hardware. -/
def init (L : Library) (extraEvents : List PmuEvent) : Except Failure (LibpfcTimer × Cfg) :=
  if L.pfcInit ≠ 0 then
    .error (.threw ("pfcInit() failed (error " ++ toString L.pfcInit ++ ": " ++
      L.pfcErrorString L.pfcInit ++ ")"))
  else
    let allEvents := (extraEvents.foldl keepEvent ([cyclesEvent L],0)).1
    let metricNames := allEvents.map (fun e => e.shortName)
    -- the assertion of the loop that fills `cfg`
    if h : ∀ e ∈ allEvents, e.slot.toNat < totalCounters then
      let cfg := allEvents.foldl setCfg (fun _ => 0)
      let err := L.pfcWrCfgs cfg
      if err ≠ 0 then
        .error (.threw ("pfcWrCfgs() failed (error " ++ toString err ++ ": " ++
          L.pfcErrorString err ++ ")"))
      else .ok (⟨allEvents,metricNames,h⟩,cfg)
    else .error (.assertion "event.slot < TOTAL_COUNTERS")

section Readings
variable {κ δ : Type} [Sub κ]

/-- `LibpfcNow`. -/
structure Now (κ : Type) where
  cnt : Fin totalCounters → κ

def delta (a b : Now κ) : Now κ := ⟨fun i => a.cnt i-b.cnt i⟩

/-- `LibpfcTimer::to_result`, with the conversion to `double`. -/
def toResult (toDouble : κ → δ) (ti : LibpfcTimer) (delta : Now κ) : List δ :=
  ti.allEvents.pmap (fun e h => toDouble (delta.cnt ⟨e.slot.toNat,h⟩)) ti.slots_lt

end Readings

/-- The events with the slots behind the fixed counters. -/
def slotted (ecount : ℕ) (events : List PmuEvent) : List PmuEvent :=
  events.mapIdx (fun i e => { e with slot := UInt32.ofNat (fixedCounters+(ecount+i)) })

lemma slotted_cons (ecount : ℕ) (e : PmuEvent) (events : List PmuEvent) :
    slotted ecount (e::events) =
      { e with slot := UInt32.ofNat (fixedCounters+ecount) }::slotted (ecount+1) events := by
  rw [slotted,List.mapIdx_cons,slotted]
  congr 2
  funext i e
  rw [show ecount+1+i = ecount+(i+1) by omega]

/-- The loop keeps the first events in order, as many as there are counters left. -/
theorem foldl_keepEvent (extraEvents all : List PmuEvent) (ecount : ℕ) :
    (extraEvents.foldl keepEvent (all,ecount)).1 =
      all ++ slotted ecount (extraEvents.take (gpCounters-ecount)) := by
  induction extraEvents generalizing all ecount with
  | nil => simp [slotted]
  | cons e extraEvents ih =>
    rw [List.foldl_cons,keepEvent]
    by_cases hfull : gpCounters ≤ ecount
    · rw [if_pos hfull,ih,Nat.sub_eq_zero_of_le hfull,List.take_zero,List.take_zero]
    · rw [if_neg hfull,ih,show gpCounters-ecount = gpCounters-(ecount+1)+1 by omega,
        List.take_succ_cons,slotted_cons,List.append_assoc]
      rfl

lemma slotted_slots {ecount : ℕ} {events : List PmuEvent}
    (h : ecount+events.length ≤ gpCounters) :
    (slotted ecount events).map (fun e => e.slot.toNat) =
      (List.range events.length).map (fun i => fixedCounters+(ecount+i)) := by
  apply List.ext_getElem
  · simp [slotted]
  · intro i hi hi'
    rw [List.length_map,List.length_range] at hi'
    have hgp : gpCounters = 4 := rfl
    have hfixed : fixedCounters = 3 := rfl
    simp only [slotted,List.getElem_map,List.getElem_mapIdx,List.getElem_range,
      UInt32.toNat_ofNat']
    exact Nat.mod_eq_of_lt (by omega)

/-- The slots of the cycles event and of the kept events are distinct. -/
theorem slots_nodup {cycles : PmuEvent} (hcycles : cycles.slot.toNat < fixedCounters)
    {events : List PmuEvent} (h : events.length ≤ gpCounters) :
    ((cycles::slotted 0 events).map (fun e => e.slot.toNat)).Nodup := by
  rw [List.map_cons,slotted_slots (by omega),List.nodup_cons]
  constructor
  · intro hmem
    obtain ⟨i,-,hi⟩ := List.mem_map.mp hmem
    omega
  · exact List.nodup_range.map (fun i j hij => by omega)

/-- What an event writes at index `i` of the configuration. -/
def writesAt (i : Fin totalCounters) (e : PmuEvent) : Option UInt64 :=
  if e.slot.toNat = i.val then some e.code else none

lemma foldl_setCfg (events : List PmuEvent) (cfg : Cfg) (i : Fin totalCounters) :
    events.foldl setCfg cfg i = lastWrite (writesAt i) events (cfg i) :=
  foldl_lastWrite setCfg (fun cfg => cfg i) (writesAt i)
    (fun cfg e => by simp only [setCfg,writesAt]; split_ifs <;> rfl) events cfg

/-- With distinct slots every slot gets the code of its event. -/
theorem cfg_code {events : List PmuEvent}
    (hnodup : (events.map (fun e => e.slot.toNat)).Nodup) {e : PmuEvent} (he : e ∈ events)
    (hlt : e.slot.toNat < totalCounters) :
    events.foldl setCfg (fun _ => 0) ⟨e.slot.toNat,hlt⟩ = e.code := by
  rw [foldl_setCfg]
  refine lastWrite_of_forall _ ⟨e,he,if_pos rfl⟩ fun e' he' v hv => ?_
  simp only [writesAt,Option.ite_none_right_eq_some,Option.some.injEq] at hv
  rw [← hv.2,List.inj_on_of_nodup_map hnodup he' he hv.1]

theorem cfg_zero {events : List PmuEvent} {i : Fin totalCounters}
    (h : ∀ e ∈ events, e.slot.toNat ≠ i.val) : events.foldl setCfg (fun _ => 0) i = 0 := by
  rw [foldl_setCfg]
  exact lastWrite_of_none _ (fun e he => if_neg (h e he))

/-- Events, slots, codes, names and values agree. -/
structure Aligned (L : Library) (extraEvents : List PmuEvent) (timer : LibpfcTimer) (cfg : Cfg) :
    Prop where
  kept : timer.allEvents = cyclesEvent L::slotted 0 (extraEvents.take gpCounters)
  distinct : (timer.allEvents.map (fun e => e.slot.toNat)).Nodup
  below : ∀ e ∈ timer.allEvents, e.slot.toNat < totalCounters
  codes : ∀ e ∈ timer.allEvents, ∀ i : Fin totalCounters, i.val = e.slot.toNat → cfg i = e.code
  zeros : ∀ i : Fin totalCounters, (∀ e ∈ timer.allEvents, e.slot.toNat ≠ i.val) → cfg i = 0
  names : timer.metricNames = timer.allEvents.map (fun e => e.shortName)
  results : ∀ (κ δ : Type) (toDouble : κ → δ) (d : Now κ),
    (toResult toDouble timer d).length = timer.metricNames.length
  values : ∀ (κ δ : Type) (toDouble : κ → δ) (d : Now κ) (i : ℕ) (e : PmuEvent),
    timer.allEvents[i]? = some e → ∃ slot : Fin totalCounters, cfg slot = e.code ∧
      timer.metricNames[i]? = some e.shortName ∧
      (toResult toDouble timer d)[i]? = some (toDouble (d.cnt slot))

/-- After a successful `init`, for any list of events. -/
theorem init_slots_aligned (L : Library) (hfixed : L.fixedcntCpuClkUnhalted.toNat < fixedCounters)
    (extraEvents : List PmuEvent) (timer : LibpfcTimer) (cfg : Cfg)
    (h : init L extraEvents = .ok (timer,cfg)) : Aligned L extraEvents timer cfg := by
  have hkept := foldl_keepEvent extraEvents [cyclesEvent L] 0
  have hnodup := slots_nodup (show (cyclesEvent L).slot.toNat < fixedCounters from hfixed)
    (List.length_take_le gpCounters extraEvents)
  rw [List.singleton_append,Nat.sub_zero] at hkept
  rw [← hkept] at hnodup
  simp only [init] at h
  split_ifs at h with hinit hbelow hwrite
  obtain ⟨rfl,rfl⟩ := Prod.mk.inj (Except.ok.inj h)
  have hcodes : ∀ e ∈ (extraEvents.foldl keepEvent ([cyclesEvent L],0)).1,
      ∀ i : Fin totalCounters, i.val = e.slot.toNat →
        (extraEvents.foldl keepEvent ([cyclesEvent L],0)).1.foldl setCfg (fun _ => 0) i =
          e.code := fun e he i hi => by
    obtain rfl : i = ⟨e.slot.toNat,hbelow e he⟩ := Fin.ext hi
    exact cfg_code hnodup he _
  refine ⟨hkept,hnodup,hbelow,hcodes,fun i hi => cfg_zero hi,rfl,fun κ δ toDouble d => ?_,
    fun κ δ toDouble d i e hi => ?_⟩
  · rw [toResult,List.length_pmap,List.length_map]
  · have he := List.mem_of_getElem? hi
    refine ⟨⟨e.slot.toNat,hbelow e he⟩,hcodes e he _ rfl,?_,?_⟩
    · rw [List.getElem?_map,hi]
      rfl
    · simp only [toResult,List.getElem?_pmap,hi]
      rfl

/-- A library with the counter of the unhalted cycles at index 1. -/
def clockAtOne : Library := ⟨1,0,fun _ => 0,fun _ => ""⟩

/-- Five events, of which the last one is not recorded. -/
def fiveEvents : List PmuEvent :=
  [PmuEvent.new "skl::LOADS".toList 0x1d1,PmuEvent.new "skl::STORES".toList 0x2d0,
   PmuEvent.new "UOPS".toList 0x10e,PmuEvent.new "skl::MISSES:L1".toList 0x8d1,
   PmuEvent.new "LOCKS".toList 0x21d0]

theorem init_slots_aligned_fiveEvents :
    ∃ timer cfg, init clockAtOne fiveEvents = .ok (timer,cfg) ∧
      Aligned clockAtOne fiveEvents timer cfg :=
  ⟨_,_,rfl,init_slots_aligned clockAtOne (by decide) fiveEvents _ _ rfl⟩

example : (PmuEvent.new "skl::MISSES:L1".toList 0x8d1).shortName = "MISSES".toList := by decide

end UarchBench.Libpfc
