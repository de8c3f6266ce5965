import UarchBench.Base.ExceptList
import UarchBench.Base.Loop
import Mathlib.Algebra.Order.Ring.Nat

/-! The listing of the events that the performance library knows. An event with unit masks has one
line for each of them, and any other event one of its own. -/
namespace UarchBench.Perf.Pfm4
open Base

structure PmuInfo where
  name : String
  desc : String
  isPresent : Bool
  firstEvent : ℤ

structure EventInfo where
  name : String
  idx : ℤ
  pmu : ℤ
  nattrs : ℕ

structure AttrInfo where
  name : String
  type : ℤ

/-- The library: a failed query has an error code, and `pmus` are the values of
`pfm_for_all_pmus`. -/
structure Pfm where
  perfEvent : ℤ
  perfEventRaw : ℤ
  attrUmask : ℤ
  pmus : List ℤ
  pfmInitialize : Except ℤ Unit
  strerror : ℤ → String
  getPmuInfo : ℤ → Except ℤ PmuInfo
  getEventNext : ℤ → ℤ
  getEventInfo : ℤ → Except ℤ EventInfo
  getEventAttrInfo : ℤ → ℕ → Except ℤ AttrInfo

inductive PfmError where
  | runtimeError (what : String)
  | fatal (message : String)
  deriving DecidableEq, Repr

inductive Line where
  | supportedPmus
  | pmu (iter : ℤ) (name desc : String)
  | blank
  | event (text : String)
  | total (count : Int32)
  deriving DecidableEq, Repr

structure ListState where
  out : List Line
  count : Int32

variable (pfm : Pfm)

def isSupportedPMU (pmu : ℤ) : Bool := pmu != pfm.perfEvent && pmu != pfm.perfEventRaw

/-- The PMUs that are kept in `allinfos`, each with its number. -/
def presentPmus : List (ℤ × PmuInfo) :=
  pfm.pmus.filterMap fun iter =>
    match pfm.getPmuInfo iter with
    | .ok pinfo => if pinfo.isPresent then some (iter,pinfo) else none
    | .error _ => none

/-- One trip of the loop over the attributes, on the output and `any_attrs`. -/
def listAttr (pinfo : PmuInfo) (info : EventInfo) (s : List Line × Bool) (attrIdx : ℕ) :
    Except PfmError (List Line × Bool) :=
  match pfm.getEventAttrInfo info.idx attrIdx with
  | .error ret => .error (.fatal ("cannot get attribute info: " ++ pfm.strerror ret))
  | .ok ainfo =>
    if ainfo.type ≠ pfm.attrUmask then .ok s
    else .ok (s.1 ++ [.event (pinfo.name ++ "::" ++ info.name ++ "." ++ ainfo.name)],true)

/-- One trip of the loop over the events. Only an event without unit masks is counted. -/
def listEvent (pinfo : PmuInfo) (s : ListState) (i : ℤ) : Except PfmError ListState :=
  match pfm.getEventInfo i with
  | .error ret => .error (.fatal ("cannot get event info: " ++ pfm.strerror ret))
  | .ok info =>
    if isSupportedPMU pfm info.pmu then do
      let (out,anyAttrs) ← (List.range info.nattrs).foldlM (listAttr pfm pinfo info) (s.out,false)
      if !anyAttrs then return ⟨out ++ [.event (pinfo.name ++ "::" ++ info.name)],s.count+1⟩
      else return {s with out := out}
    else .ok s

/-- The loop over the events of a PMU, which ends at the event `-1`. -/
def listEvents (pinfo : PmuInfo) (fuel : ℕ) (s : ListState) :
    Option (Except PfmError ListState) :=
  loop (fun t : ℤ × ListState => some (
    if t.1 = -1 then .inr (.ok t.2)
    else match listEvent pfm pinfo t.2 t.1 with
      | .error e => .inr (.error e)
      | .ok s' => .inl (pfm.getEventNext t.1,s'))) fuel (pinfo.firstEvent,s)

def listPmus (fuel : ℕ) : List PmuInfo → ListState → Option (Except PfmError ListState)
  | [], s => some (.ok s)
  | pinfo::pinfos, s =>
    match listEvents pfm pinfo fuel s with
    | some (.ok s') => listPmus fuel pinfos s'
    | r => r

/-- The lines in front of the events. -/
def headLines : List Line :=
  .supportedPmus::(presentPmus pfm).map (fun p => .pmu p.1 p.2.name p.2.desc) ++ [.blank]

/-- `listPfm4Events`: what it writes to the output of the context. -/
def listPfm4Events (fuel : ℕ) : Option (Except PfmError (List Line)) :=
  match pfm.pfmInitialize with
  | .error ret => some (.error (.runtimeError
      ("libpfm4 init failed (" ++ toString ret ++ "): " ++ pfm.strerror ret)))
  | .ok _ =>
    (listPmus pfm fuel ((presentPmus pfm).map Prod.snd) ⟨headLines pfm,0⟩).map
      (fun r => r.map (fun s => s.out ++ [.total s.count]))

/-- An event as the library numbers it, with its attributes. -/
structure Event where
  id : ℤ
  info : EventInfo
  attrs : List AttrInfo

/-- The queries about an event succeed. -/
structure Event.Known (e : Event) : Prop where
  info_ok : pfm.getEventInfo e.id = .ok e.info
  nattrs_eq : e.info.nattrs = e.attrs.length
  attr_ok : ∀ k a, e.attrs[k]? = some a → pfm.getEventAttrInfo e.info.idx k = .ok a

/-- From an event on, the library enumerates some events and then ends. -/
inductive Enumerates : ℤ → List Event → Prop
  | nil : Enumerates (-1) []
  | cons {e : Event} {es} (id_ne : e.id ≠ -1) (known : e.Known pfm)
      (rest : Enumerates (pfm.getEventNext e.id) es) : Enumerates e.id (e::es)

/-- The library answers from a table: the present PMUs with their events. -/
structure Serves (table : List (PmuInfo × List Event)) : Prop where
  initialized : pfm.pfmInitialize = .ok ()
  pmus : (presentPmus pfm).map Prod.snd = table.map Prod.fst
  events : ∀ p ∈ table, Enumerates pfm p.1.firstEvent p.2

/-- The unit masks of an event. -/
def Event.umasks (e : Event) : List AttrInfo := e.attrs.filter (fun a => a.type = pfm.attrUmask)

/-- The lines that an event should have. -/
def Event.lineCount (e : Event) : ℕ :=
  if isSupportedPMU pfm e.info.pmu then max 1 (e.umasks pfm).length else 0

def Line.isEvent : Line → Bool
  | .event _ => true
  | _ => false

def Line.total? : Line → Option Int32
  | .total count => some count
  | _ => none

section OneEvent
variable {pfm} (pinfo : PmuInfo) {e : Event}

def umaskLine (pinfo : PmuInfo) (info : EventInfo) (a : AttrInfo) : Line :=
  .event (pinfo.name ++ "::" ++ info.name ++ "." ++ a.name)

/-- What a trip over a known attribute does. -/
def addAttr (pfm : Pfm) (pinfo : PmuInfo) (info : EventInfo) (s : List Line × Bool)
    (a : AttrInfo) : List Line × Bool :=
  if a.type ≠ pfm.attrUmask then s else (s.1 ++ [umaskLine pinfo info a],true)

lemma foldl_addAttr (info : EventInfo) (attrs : List AttrInfo) (s : List Line × Bool) :
    attrs.foldl (addAttr pfm pinfo info) s =
      (s.1 ++ (attrs.filter (fun a => a.type = pfm.attrUmask)).map (umaskLine pinfo info),
        s.2 || !(attrs.filter (fun a => a.type = pfm.attrUmask)).isEmpty) := by
  induction attrs generalizing s with
  | nil => simp
  | cons a attrs ih =>
    rw [List.foldl_cons,ih,addAttr]
    by_cases h : a.type = pfm.attrUmask <;> simp [h]

/-- The lines that a known event gets. -/
def eventLines (pfm : Pfm) (pinfo : PmuInfo) (e : Event) : List Line :=
  if !isSupportedPMU pfm e.info.pmu then []
  else if (e.umasks pfm).isEmpty then [.event (pinfo.name ++ "::" ++ e.info.name)]
  else (e.umasks pfm).map (umaskLine pinfo e.info)

/-- The event is counted. -/
def Event.counted (pfm : Pfm) (e : Event) : ℕ :=
  if isSupportedPMU pfm e.info.pmu && (e.umasks pfm).isEmpty then 1 else 0

lemma listAttr_eq (he : e.Known pfm) {k : ℕ} {a : AttrInfo} (ha : e.attrs[k]? = some a)
    (s : List Line × Bool) :
    listAttr pfm pinfo e.info s k = .ok (addAttr pfm pinfo e.info s a) := by
  rw [listAttr,he.attr_ok k a ha,addAttr]
  exact (apply_ite Except.ok _ _ _).symm

/-- A known event adds its lines, and is counted if it has no unit masks. -/
theorem listEvent_eq (he : e.Known pfm) (s : ListState) :
    listEvent pfm pinfo s e.id =
      .ok ⟨s.out ++ eventLines pfm pinfo e,s.count+Int32.ofNat (e.counted pfm)⟩ := by
  have hattrs : (List.range e.info.nattrs).foldlM (listAttr pfm pinfo e.info) (s.out,false) =
      .ok (s.out ++ (e.umasks pfm).map (umaskLine pinfo e.info),!(e.umasks pfm).isEmpty) := by
    rw [he.nattrs_eq,foldlM_range (fun k a ha t => listAttr_eq pinfo he ha t),foldl_addAttr]
    rfl
  rw [listEvent,he.info_ok,eventLines,Event.counted]
  cases hsupported : isSupportedPMU pfm e.info.pmu with
  | false => simp [hsupported]
  | true =>
    simp only [hattrs,bind,Except.bind]
    cases e.umasks pfm with
    | nil => simp [hsupported,pure,Except.pure]
    | cons a attrs => simp [hsupported,pure,Except.pure]

end OneEvent

section Listing
variable {pfm}

/-- The loop runs through the enumerated events. -/
theorem listEvents_eq {pinfo : PmuInfo} {first : ℤ} {es : List Event}
    (h : Enumerates pfm first es) (hfirst : pinfo.firstEvent = first) (s : ListState) {fuel : ℕ}
    (hfuel : es.length < fuel) :
    listEvents pfm pinfo fuel s = some (.ok ⟨s.out ++ es.flatMap (eventLines pfm pinfo),
      s.count+Int32.ofNat (es.map (Event.counted pfm)).sum⟩) := by
  rw [listEvents,hfirst]
  clear hfirst
  induction h generalizing s fuel with
  | nil =>
    obtain ⟨fuel,rfl⟩ : ∃ m, fuel = m+1 := ⟨fuel-1,by omega⟩
    simp [loop]
  | @cons e es hne known rest ih =>
    rw [List.length_cons] at hfuel
    obtain ⟨fuel,rfl⟩ : ∃ m, fuel = m+1 := ⟨fuel-1,by omega⟩
    simp only [loop,if_neg hne,listEvent_eq pinfo known]
    rw [ih _ (by omega),List.flatMap_cons,List.map_cons,List.sum_cons,Int32.ofNat_add,
      List.append_assoc,Int32.add_assoc]

/-- All lines for the events of some PMUs, in order. -/
def tableLines (pfm : Pfm) (table : List (PmuInfo × List Event)) : List Line :=
  table.flatMap (fun p => p.2.flatMap (eventLines pfm p.1))

/-- The events of all PMUs. -/
def tableEvents (table : List (PmuInfo × List Event)) : List Event := table.flatMap Prod.snd

theorem listPmus_eq {table : List (PmuInfo × List Event)}
    (h : ∀ p ∈ table, Enumerates pfm p.1.firstEvent p.2) (s : ListState) {fuel : ℕ}
    (hfuel : ∀ p ∈ table, p.2.length < fuel) :
    listPmus pfm fuel (table.map Prod.fst) s = some (.ok ⟨s.out ++ tableLines pfm table,
      s.count+Int32.ofNat ((tableEvents table).map (Event.counted pfm)).sum⟩) := by
  induction table generalizing s with
  | nil => simp [listPmus,tableLines,tableEvents]
  | cons p table ih =>
    obtain ⟨hp,htable⟩ := List.forall_mem_cons.mp h
    obtain ⟨hpfuel,hfuel⟩ := List.forall_mem_cons.mp hfuel
    rw [List.map_cons,listPmus,listEvents_eq hp rfl s hpfuel]
    simp only
    rw [ih htable _ hfuel,tableLines,tableLines,List.flatMap_cons,tableEvents,tableEvents,
      List.flatMap_cons,List.map_append,List.sum_append,Int32.ofNat_add,List.append_assoc,
      Int32.add_assoc]

/-- Only the total follows the lines of the events, and only these lie between. -/
lemma listPfm4Events_eq {table : List (PmuInfo × List Event)} (h : Serves pfm table) :
    ∃ steps, ∀ fuel, steps ≤ fuel → listPfm4Events pfm fuel = some (.ok
      (headLines pfm ++ tableLines pfm table ++
        [.total (Int32.ofNat ((tableEvents table).map (Event.counted pfm)).sum)])) := by
  refine ⟨(tableEvents table).length+1,fun fuel hfuel => ?_⟩
  have hlen : ∀ p ∈ table, p.2.length < fuel := by
    intro p hp
    have hsub : p.2.Sublist (tableEvents table) :=
      List.sublist_flatten_of_mem (List.mem_map_of_mem hp)
    have hle := hsub.length_le
    omega
  rw [listPfm4Events,h.initialized,h.pmus,listPmus_eq h.events _ hlen]
  simp only [Int32.zero_add]
  rfl

end Listing

section Total
variable {pfm}

lemma eventLines_isEvent (pinfo : PmuInfo) (e : Event) :
    ∀ l ∈ eventLines pfm pinfo e, l.isEvent = true := by
  intro l hl
  rw [eventLines] at hl
  split_ifs at hl
  · exact absurd hl List.not_mem_nil
  · rw [List.mem_singleton.mp hl]
    rfl
  · obtain ⟨a,-,rfl⟩ := List.mem_map.mp hl
    rfl

lemma eventLines_length (pinfo : PmuInfo) (e : Event) :
    (eventLines pfm pinfo e).length = e.lineCount pfm := by
  rw [eventLines,Event.lineCount]
  cases isSupportedPMU pfm e.info.pmu with
  | false => rfl
  | true =>
    cases e.umasks pfm with
    | nil => rfl
    | cons a attrs => simp

lemma tableLines_length (table : List (PmuInfo × List Event)) :
    (tableLines pfm table).length = ((tableEvents table).map (Event.lineCount pfm)).sum := by
  have hlength : ∀ p : PmuInfo × List Event,
      (p.2.flatMap (eventLines pfm p.1)).length = (p.2.map (Event.lineCount pfm)).sum := fun p => by
    rw [List.length_flatMap]
    exact congrArg List.sum (List.map_congr_left (fun e _ => eventLines_length p.1 e))
  induction table with
  | nil => rfl
  | cons p table ih =>
    rw [tableLines] at ih
    rw [tableLines,tableEvents,List.flatMap_cons,List.flatMap_cons,List.length_append,hlength,ih,
      List.map_append,List.sum_append,tableEvents]

lemma counted_le (pfm : Pfm) (e : Event) : e.counted pfm ≤ e.lineCount pfm := by
  rw [Event.counted,Event.lineCount]
  cases isSupportedPMU pfm e.info.pmu with
  | false => exact le_rfl
  | true => cases e.umasks pfm <;> simp

lemma counted_eq_iff (e : Event) : e.counted pfm = e.lineCount pfm ↔
    (isSupportedPMU pfm e.info.pmu = true → e.umasks pfm = []) := by
  rw [Event.counted,Event.lineCount]
  cases isSupportedPMU pfm e.info.pmu with
  | false => simp
  | true => cases e.umasks pfm <;> simp

/-- The total falls behind the lines with every event that has unit masks. -/
lemma sum_counted (pfm : Pfm) (es : List Event) :
    (es.map (Event.counted pfm)).sum ≤ (es.map (Event.lineCount pfm)).sum ∧
    ((es.map (Event.counted pfm)).sum = (es.map (Event.lineCount pfm)).sum ↔
      ∀ e ∈ es, isSupportedPMU pfm e.info.pmu = true → e.umasks pfm = []) := by
  induction es with
  | nil => simp
  | cons e es ih =>
    obtain ⟨hle,heq⟩ := ih
    have hle' := counted_le pfm e
    rw [List.map_cons,List.map_cons,List.sum_cons,List.sum_cons,List.forall_mem_cons,← heq,
      ← counted_eq_iff]
    omega

/-- Without unit masks every supported event has one line. -/
lemma sum_lineCount {es : List Event}
    (h : ∀ e ∈ es, isSupportedPMU pfm e.info.pmu = true → e.umasks pfm = []) :
    (es.map (Event.lineCount pfm)).sum =
      (es.filter (fun e => isSupportedPMU pfm e.info.pmu)).length := by
  induction es with
  | nil => rfl
  | cons e es ih =>
    obtain ⟨he,hes⟩ := List.forall_mem_cons.mp h
    rw [List.map_cons,List.sum_cons,ih hes,Event.lineCount]
    cases hsupported : isSupportedPMU pfm e.info.pmu with
    | false => simp [hsupported]
    | true => simp [hsupported,he hsupported,Nat.add_comm]

lemma toInt_ofNat_eq_iff {count lines : ℕ} (hle : count ≤ lines) :
    (Int32.ofNat count).toInt = lines ↔ count = lines ∧ lines < 2^31 := by
  have hint : (Int32.ofNat count).toInt = (count : ℤ).bmod (2^32) := Int32.toInt_ofNat'
  have hlt : (count : ℤ).bmod (2^32) < ((2^32 : ℕ)+1)/2 := Int.bmod_lt (by decide)
  rw [hint]
  constructor
  · intro h
    have hsmall : lines < 2^31 := by omega
    rw [Int.bmod_eq_of_le (by omega) (by omega)] at h
    exact ⟨Int.ofNat_inj.mp h,hsmall⟩
  · rintro ⟨rfl,hsmall⟩
    exact Int.bmod_eq_of_le (by omega) (by omega)

end Total

/-- The lines in front of the events are neither events nor totals. -/
lemma headLines_other (pfm : Pfm) : ∀ l ∈ headLines pfm, l.isEvent = false ∧ l.total? = none := by
  intro l hl
  simp only [headLines,List.mem_append,List.mem_cons,List.mem_map,List.not_mem_nil,
    or_false] at hl
  rcases hl with (rfl | ⟨p,-,rfl⟩) | rfl <;> exact ⟨rfl,rfl⟩

lemma tableLines_event (pfm : Pfm) (table : List (PmuInfo × List Event)) :
    ∀ l ∈ tableLines pfm table, l.isEvent = true ∧ l.total? = none := by
  intro l hl
  obtain ⟨p,-,hl⟩ := List.mem_flatMap.mp hl
  obtain ⟨e,-,hl⟩ := List.mem_flatMap.mp hl
  have hevent := eventLines_isEvent p.1 e l hl
  refine ⟨hevent,?_⟩
  cases l with
  | total count => cases hevent
  | _ => rfl

/-- Each supported event has its lines, one for every unit mask or a single one. The total is their
number exactly if no supported event has a unit mask and the events fit an `int`. -/
theorem listPfm4Events_total_iff {pfm : Pfm} {table : List (PmuInfo × List Event)}
    (h : Serves pfm table) :
    ∃ out, (∃ steps, ∀ fuel, steps ≤ fuel → listPfm4Events pfm fuel = some (.ok out)) ∧
      (out.filter Line.isEvent).length =
        ((tableEvents table).map (Event.lineCount pfm)).sum ∧
      ∃ total, out.filterMap Line.total? = [total] ∧
        (total.toInt = (out.filter Line.isEvent).length ↔
          (∀ e ∈ tableEvents table, isSupportedPMU pfm e.info.pmu = true → e.umasks pfm = []) ∧
          ((tableEvents table).filter (fun e => isSupportedPMU pfm e.info.pmu)).length <
            2^31) := by
  have hhead := headLines_other pfm
  have hlines := tableLines_event pfm table
  obtain ⟨hle,heq⟩ := sum_counted pfm (tableEvents table)
  refine ⟨_,listPfm4Events_eq h,?_⟩
  have hevents : (headLines pfm ++ tableLines pfm table ++
      [Line.total (Int32.ofNat ((tableEvents table).map (Event.counted pfm)).sum)]).filter
        Line.isEvent = tableLines pfm table := by
    rw [List.filter_append,List.filter_append,
      List.filter_eq_nil_iff.mpr (fun l hl => by simp [(hhead l hl).1]),
      List.filter_eq_self.mpr (fun l hl => (hlines l hl).1)]
    exact List.append_nil _
  rw [hevents,tableLines_length]
  refine ⟨rfl,Int32.ofNat ((tableEvents table).map (Event.counted pfm)).sum,?_,?_⟩
  · rw [List.filterMap_append,List.filterMap_append,
      List.filterMap_eq_nil_iff.mpr (fun l hl => (hhead l hl).2),
      List.filterMap_eq_nil_iff.mpr (fun l hl => (hlines l hl).2)]
    rfl
  · rw [toInt_ofNat_eq_iff hle,heq]
    exact and_congr_right (fun hnone => by rw [sum_lineCount hnone])

/-- One present PMU with one event, whose attributes are of some types; unit masks have type 1. -/
def onePmu (types : List ℤ) : Pfm where
  perfEvent := 1
  perfEventRaw := 2
  attrUmask := 1
  pmus := [0]
  pfmInitialize := .ok ()
  strerror _ := "error"
  getPmuInfo _ := .ok ⟨"skl","Intel Skylake",true,7⟩
  getEventNext _ := -1
  getEventInfo _ := .ok ⟨"ICACHE",7,0,types.length⟩
  getEventAttrInfo _ k := match types[k]? with
    | some type => .ok ⟨"HIT",type⟩
    | none => .error (-1)

def oneEvent (types : List ℤ) : Event :=
  ⟨7,⟨"ICACHE",7,0,types.length⟩,types.map (fun type => ⟨"HIT",type⟩)⟩

lemma onePmu_serves (types : List ℤ) :
    Serves (onePmu types) [(⟨"skl","Intel Skylake",true,7⟩,[oneEvent types])] := by
  refine ⟨rfl,rfl,fun p hp => ?_⟩
  rw [List.mem_singleton.mp hp]
  have hid : (oneEvent types).id ≠ -1 := show (7 : ℤ) ≠ -1 by decide
  refine Enumerates.cons hid ⟨rfl,by simp [oneEvent],?_⟩ Enumerates.nil
  intro k a ha
  rw [oneEvent,List.getElem?_map,Option.map_eq_some_iff] at ha
  obtain ⟨type,htype,rfl⟩ := ha
  simp [onePmu,htype]

/-- An event with an attribute that is no unit mask. -/
theorem listPfm4Events_total_plain :
    ∃ out, (∃ steps, ∀ fuel, steps ≤ fuel → listPfm4Events (onePmu [2]) fuel = some (.ok out)) ∧
      (out.filter Line.isEvent).length =
        ((tableEvents [(⟨"skl","Intel Skylake",true,7⟩,[oneEvent [2]])]).map
          (Event.lineCount (onePmu [2]))).sum ∧
      ∃ total, out.filterMap Line.total? = [total] ∧
        (total.toInt = (out.filter Line.isEvent).length ↔
          (∀ e ∈ tableEvents [(⟨"skl","Intel Skylake",true,7⟩,[oneEvent [2]])],
            isSupportedPMU (onePmu [2]) e.info.pmu = true → e.umasks (onePmu [2]) = []) ∧
          ((tableEvents [(⟨"skl","Intel Skylake",true,7⟩,[oneEvent [2]])]).filter
            (fun e => isSupportedPMU (onePmu [2]) e.info.pmu)).length < 2^31) :=
  listPfm4Events_total_iff (onePmu_serves [2])

/-- The line of a unit mask is not counted. -/
theorem listPfm4Events_total_umask :
    Serves (onePmu [1]) [(⟨"skl","Intel Skylake",true,7⟩,[oneEvent [1]])] ∧
    ∃ out, listPfm4Events (onePmu [1]) 2 = some (.ok out) ∧
      out.filter Line.isEvent = [.event "skl::ICACHE.HIT"] ∧
      out.filterMap Line.total? = [0] :=
  ⟨onePmu_serves [1],_,rfl,rfl,rfl⟩

end UarchBench.Perf.Pfm4
