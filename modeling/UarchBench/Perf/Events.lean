import UarchBench.Base.ExceptList
import UarchBench.Util.Split
import Mathlib.Tactic.Push
import Mathlib.Tactic.ByContra

/-! The parser of event lists. Commas between slashes do not separate events, and a `#` gives an
event a header of its own. -/
namespace UarchBench.Perf
open Base Util

structure NamedEvent where
  name : Text
  header : Text
  deriving DecidableEq, Repr

def makeHeader (name : Text) : Text := substr name 0 (min 6 name.length)

def NamedEvent.ofName (name : Text) : NamedEvent := ⟨name,makeHeader name⟩

/-- The locals of `parsePerfEvents`. -/
structure ParseState where
  inslash : Bool
  events : List NamedEvent
  currentEvent : Text

/-- The body of `add_event` without its effects. -/
def namedEvent (currentEvent : Text) : Except String NamedEvent :=
  if find currentEvent ['#'] 0 = none then .ok (NamedEvent.ofName currentEvent)
  else
    match splitOnString currentEvent ['#'] with
    | some [name,header] => .ok ⟨name,header⟩
    | _ => .error ("wrong looking event string: " ++ String.ofList currentEvent)

def addEvent (s : ParseState) : Except String ParseState := do
  let event ← namedEvent s.currentEvent
  return {s with events := s.events ++ [event], currentEvent := []}

/-- One trip of the loop. -/
def parseChar (s : ParseState) (c : Char) : Except String ParseState :=
  if c = ',' ∧ ¬ s.inslash then addEvent s
  else
    .ok {s with
      inslash := if c = '/' then !s.inslash else s.inslash
      currentEvent := s.currentEvent ++ [c]}

def parsePerfEvents (eventString : Text) : Except String (List NamedEvent) := do
  let s ← eventString.foldlM parseChar ⟨false,[],[]⟩
  let s ← addEvent s
  return s.events

/-- Every character with the parity of the slashes before it. -/
def withParity (slashes : ℕ) (s : Text) : List (Char × Bool) :=
  s.mapIdx (fun i c => (c,(slashes+(s.take i).count '/')%2 == 0))

/-- A comma preceded by an even number of slashes. -/
def isCut (x : Char × Bool) : Bool := x.1 == ',' && x.2

/-- The text cut at these commas, given the number of slashes before it. -/
def rawEventsFrom (slashes : ℕ) (s : Text) : List Text :=
  ((withParity slashes s).splitOnP isCut).map (fun r => r.map Prod.fst)

def rawEvents (s : Text) : List Text := rawEventsFrom 0 s

lemma rawEventsFrom_nil (slashes : ℕ) : rawEventsFrom slashes [] = [[]] := rfl

lemma withParity_cons (slashes : ℕ) (c : Char) (s : Text) :
    withParity slashes (c::s) =
      (c,slashes%2 == 0)::withParity (slashes+if c = '/' then 1 else 0) s := by
  rw [withParity,List.mapIdx_cons,withParity]
  congr 1
  refine congrArg (fun f => List.mapIdx f s) ?_
  funext i d
  rw [List.take_succ_cons,List.count_cons]
  by_cases hc : c = '/'
  · simp [hc,Nat.add_assoc,Nat.add_comm 1]
  · simp [hc]

lemma rawEventsFrom_ne_nil (slashes : ℕ) (s : Text) : rawEventsFrom slashes s ≠ [] := by
  rw [rawEventsFrom,ne_eq,List.map_eq_nil_iff]
  exact List.splitOnP_ne_nil _ _

lemma rawEventsFrom_cut {slashes : ℕ} (h : slashes%2 = 0) (s : Text) :
    rawEventsFrom slashes (','::s) = []::rawEventsFrom slashes s := by
  rw [rawEventsFrom,withParity_cons,List.splitOnP_cons_eq_if_modifyHead]
  simp [isCut,h,rawEventsFrom]

lemma rawEventsFrom_keep {slashes : ℕ} {c : Char} (h : ¬ (c = ',' ∧ slashes%2 = 0)) (s : Text) :
    rawEventsFrom slashes (c::s) =
      (rawEventsFrom (slashes+if c = '/' then 1 else 0) s).modifyHead (c::·) := by
  rw [rawEventsFrom,withParity_cons,List.splitOnP_cons_eq_if_modifyHead,
    if_neg (by simpa [isCut] using h)]
  obtain ⟨r,rs,hr⟩ := List.exists_cons_of_ne_nil
    (List.splitOnP_ne_nil isCut (withParity (slashes+if c = '/' then 1 else 0) s))
  rw [rawEventsFrom,hr]
  rfl

/-- Nothing but the cuts is lost. -/
theorem rawEventsFrom_join (slashes : ℕ) (s : Text) :
    [','].intercalate (rawEventsFrom slashes s) = s := by
  induction s generalizing slashes with
  | nil => rfl
  | cons c s ih =>
    by_cases h : c = ',' ∧ slashes%2 = 0
    · obtain ⟨rfl,heven⟩ := h
      have hnext := ih slashes
      obtain ⟨r,rs,hr⟩ := List.exists_cons_of_ne_nil (rawEventsFrom_ne_nil slashes s)
      rw [rawEventsFrom_cut heven,hr,List.intercalate_cons_cons,← hr,hnext]
      rfl
    · rw [rawEventsFrom_keep h]
      have hnext := ih (slashes+if c = '/' then 1 else 0)
      obtain ⟨r,rs,hr⟩ := List.exists_cons_of_ne_nil
        (rawEventsFrom_ne_nil (slashes+if c = '/' then 1 else 0) s)
      rw [hr] at hnext ⊢
      cases rs with
      | nil => simpa using hnext
      | cons r' rs =>
        rw [List.modifyHead_cons]
        rw [List.intercalate_cons_cons] at hnext ⊢
        rw [← hnext]
        rfl

lemma addEvent_eq (s : ParseState) : addEvent s = (namedEvent s.currentEvent).map
    (fun event => {s with events := s.events ++ [event], currentEvent := []}) := by
  rw [addEvent]
  cases namedEvent s.currentEvent <;> rfl

/-- From this state of the loop, the events to come are those of the raw events of the rest, the
first of which begins with what has been collected. -/
def Completes (s : ParseState) (slashes : ℕ) (cs : Text) : Prop :=
  (cs.foldlM parseChar s >>= addEvent).map ParseState.events =
    (((rawEventsFrom slashes cs).modifyHead (s.currentEvent ++ ·)).mapM namedEvent).map
      (s.events ++ ·)

/-- With nothing collected, the raw events are those of the rest. -/
lemma modifyHead_nil_append (rs : List Text) : rs.modifyHead (([] : Text) ++ ·) = rs := by
  have hid : (([] : Text) ++ ·) = (id : Text → Text) := rfl
  rw [hid,List.modifyHead_id,id]

lemma completes_nil (s : ParseState) (slashes : ℕ) : Completes s slashes [] := by
  rw [Completes,List.foldlM_nil,rawEventsFrom_nil,List.modifyHead_cons,List.append_nil,
    List.mapM_cons,List.mapM_nil]
  change (addEvent s).map ParseState.events = _
  rw [addEvent_eq]
  cases namedEvent s.currentEvent <;> rfl

/-- A comma outside slashes ends the event collected so far. -/
lemma completes_cut {s : ParseState} {slashes : ℕ} {cs : Text} (heven : slashes%2 = 0)
    (hchar : parseChar s ',' = addEvent s)
    (hnext : ∀ event, Completes {s with events := s.events ++ [event], currentEvent := []}
      slashes cs) : Completes s slashes (','::cs) := by
  rw [Completes,List.foldlM_cons,hchar,addEvent_eq,rawEventsFrom_cut heven,List.modifyHead_cons,
    List.append_nil,List.mapM_cons]
  cases hevent : namedEvent s.currentEvent with
  | error e => rfl
  | ok event =>
    have hrest := hnext event
    rw [Completes,modifyHead_nil_append] at hrest
    change (cs.foldlM parseChar _ >>= addEvent).map ParseState.events = _
    rw [hrest]
    change _ = ((rawEventsFrom slashes cs).mapM namedEvent >>=
      fun events => .ok (event::events)).map (s.events ++ ·)
    cases (rawEventsFrom slashes cs).mapM namedEvent with
    | error e => rfl
    | ok events => exact congrArg Except.ok (List.append_assoc _ _ _)

/-- Any other character is collected. -/
lemma completes_keep {s t : ParseState} {slashes : ℕ} {c : Char} {cs : Text}
    (hkeep : ¬ (c = ',' ∧ slashes%2 = 0)) (hchar : parseChar s c = .ok t)
    (hevents : t.events = s.events) (hcurrent : t.currentEvent = s.currentEvent ++ [c])
    (hnext : Completes t (slashes+if c = '/' then 1 else 0) cs) : Completes s slashes (c::cs) := by
  rw [Completes,List.foldlM_cons,hchar,rawEventsFrom_keep hkeep,List.modifyHead_modifyHead]
  have hcollected : (s.currentEvent ++ ·) ∘ (c::·) = (t.currentEvent ++ ·) := by
    funext r
    rw [Function.comp_apply,hcurrent,List.append_assoc]
    rfl
  rw [hcollected,← hevents]
  exact hnext

/-- The flag of the loop is the parity of the slashes. -/
lemma inslash_parity {inslash : Bool} {slashes : ℕ} (h : inslash = true ↔ slashes%2 = 1)
    (c : Char) : (if c = '/' then !inslash else inslash) = true ↔
      (slashes+if c = '/' then 1 else 0)%2 = 1 := by
  by_cases hc : c = '/'
  · cases inslash <;> simp [hc] at h ⊢ <;> omega
  · simpa [hc] using h

theorem parse_run (cs : Text) (s : ParseState) (slashes : ℕ)
    (hparity : s.inslash = true ↔ slashes%2 = 1) : Completes s slashes cs := by
  induction cs generalizing s slashes with
  | nil => exact completes_nil s slashes
  | cons c cs ih =>
    by_cases hcut : c = ',' ∧ slashes%2 = 0
    · obtain ⟨rfl,heven⟩ := hcut
      have hslash : ¬ s.inslash = true := fun h => by
        have := hparity.mp h
        omega
      exact completes_cut heven (if_pos ⟨rfl,hslash⟩) (fun event => ih _ slashes hparity)
    · have hkeep : ¬ (c = ',' ∧ ¬ s.inslash = true) := by
        rintro ⟨rfl,hslash⟩
        rw [hparity] at hslash
        exact hcut ⟨rfl,by omega⟩
      exact completes_keep hcut (if_neg hkeep) rfl rfl (ih _ _ (inslash_parity hparity c))

/-- The parser makes one event of each raw event, in order. -/
theorem parsePerfEvents_eq (s : Text) : parsePerfEvents s = (rawEvents s).mapM namedEvent := by
  have hrun := parse_run s ⟨false,[],[]⟩ 0 (by simp)
  have hleft : parsePerfEvents s =
      (s.foldlM parseChar ⟨false,[],[]⟩ >>= addEvent).map ParseState.events := by
    rw [parsePerfEvents]
    cases s.foldlM parseChar ⟨false,[],[]⟩ with
    | error e => rfl
    | ok t =>
      change (addEvent t >>= fun t => .ok t.events) = (addEvent t).map ParseState.events
      cases addEvent t <;> rfl
  rw [hleft,hrun,modifyHead_nil_append,rawEvents]
  cases (rawEventsFrom 0 s).mapM namedEvent <;> rfl

/-- What an event with at most one `#` means. -/
def eventOf (r : Text) : NamedEvent :=
  if '#' ∈ r then ⟨r.takeWhile (· ≠ '#'),(r.dropWhile (· ≠ '#')).tail⟩ else ⟨r,r.take 6⟩

lemma makeHeader_eq (name : Text) : makeHeader name = name.take 6 := by
  rw [makeHeader,substr,List.drop_zero,← List.take_take,List.take_length]

lemma eventOf_append {a b : Text} (ha : '#' ∉ a) : eventOf (a ++ '#'::b) = ⟨a,b⟩ := by
  have hkeep : ∀ c ∈ a, decide (c ≠ '#') = true := fun c hc =>
    decide_eq_true (fun h => ha (h ▸ hc))
  rw [eventOf,if_pos (by simp),List.takeWhile_append_of_pos hkeep,
    List.dropWhile_append_of_pos hkeep]
  simp

theorem namedEvent_ok {r : Text} (h : r.count '#' ≤ 1) : namedEvent r = .ok (eventOf r) := by
  by_cases hmem : '#' ∈ r
  · obtain ⟨a,b,rfl,ha⟩ := List.eq_append_cons_of_mem hmem
    have hb : '#' ∉ b := fun hb => by
      have := List.count_pos_iff.mpr hb
      rw [List.count_append,List.count_cons_self] at h
      omega
    rw [namedEvent,if_neg (by rw [find_zero_eq_none_iff]; exact not_not.mpr hmem),
      splitOnString_char,List.splitOn_append_cons_self,List.splitOn_eq_singleton ha,
      List.splitOn_eq_singleton hb,eventOf_append ha]
    rfl
  · rw [namedEvent,if_pos ((find_zero_eq_none_iff '#' r).mpr hmem),NamedEvent.ofName,
      makeHeader_eq,eventOf,if_neg hmem]

theorem namedEvent_error {r : Text} (h : 2 ≤ r.count '#') :
    namedEvent r = .error ("wrong looking event string: " ++ String.ofList r) := by
  have hmem : '#' ∈ r := List.count_pos_iff.mp (by omega)
  rw [namedEvent,if_neg (by rw [find_zero_eq_none_iff]; exact not_not.mpr hmem),
    splitOnString_char]
  obtain ⟨a,b,hr,ha⟩ := List.eq_append_cons_of_mem hmem
  have hb : '#' ∈ b := by
    rw [hr,List.count_append,List.count_cons_self,List.count_eq_zero.mpr ha] at h
    exact List.count_pos_iff.mp (by omega)
  obtain ⟨a',b',hb',ha'⟩ := List.eq_append_cons_of_mem hb
  obtain ⟨x,xs,hxs⟩ := List.exists_cons_of_ne_nil (List.splitOn_ne_nil '#' b')
  have hsplit : r.splitOn '#' = a::a'::x::xs := by
    rw [hr,List.splitOn_append_cons_self,List.splitOn_eq_singleton ha,hb',
      List.splitOn_append_cons_self,List.splitOn_eq_singleton ha',hxs]
    rfl
  rw [hsplit]

theorem parsePerfEvents_ok {s : Text} (h : ∀ r ∈ rawEvents s, r.count '#' ≤ 1) :
    parsePerfEvents s = .ok ((rawEvents s).map eventOf) := by
  rw [parsePerfEvents_eq]
  exact mapM_ok (fun r hr => namedEvent_ok (h r hr))

theorem parsePerfEvents_error_iff (s : Text) :
    (∃ e, parsePerfEvents s = .error e) ↔ ∃ r ∈ rawEvents s, 2 ≤ r.count '#' := by
  constructor
  · rintro ⟨e,he⟩
    by_contra hnone
    have hone : ∀ r ∈ rawEvents s, r.count '#' ≤ 1 := fun r hr =>
      Nat.le_of_not_lt (fun hlt => hnone ⟨r,hr,hlt⟩)
    rw [parsePerfEvents_ok hone] at he
    contradiction
  · rintro ⟨r,hr,hcount⟩
    rw [parsePerfEvents_eq]
    exact mapM_error ⟨r,hr,_,namedEvent_error hcount⟩

/-- An even number of slashes, and every comma between two of them. -/
def Enclosed (e : Text) : Prop :=
  e.count '/'%2 = 0 ∧ ∀ i, e[i]? = some ',' → (e.take i).count '/'%2 = 1

instance (e : Text) : Decidable (Enclosed e) :=
  decidable_of_iff (e.count '/'%2 = 0 ∧
      ∀ i < e.length, e[i]? = some ',' → (e.take i).count '/'%2 = 1)
    (and_congr_right fun _ => forall_congr' fun _ => ⟨fun h hi =>
      h (List.getElem?_eq_some_iff.mp hi).1 hi,fun h _ => h⟩)

/-- A text whose commas all follow an odd number of slashes is not cut. -/
lemma rawEventsFrom_enclosed (slashes : ℕ) (e s : Text)
    (h : ∀ i, e[i]? = some ',' → (slashes+(e.take i).count '/')%2 = 1) :
    rawEventsFrom slashes (e ++ s) =
      (rawEventsFrom (slashes+e.count '/') s).modifyHead (e ++ ·) := by
  induction e generalizing slashes with
  | nil => exact (modifyHead_nil_append _).symm
  | cons c e ih =>
    have hkeep : ¬ (c = ',' ∧ slashes%2 = 0) := by
      rintro ⟨rfl,heven⟩
      have := h 0 rfl
      simp only [List.take_zero,List.count_nil] at this
      omega
    have hcount : slashes+(c::e).count '/' = slashes+(if c = '/' then 1 else 0)+e.count '/' := by
      rw [List.count_cons]
      by_cases hc : c = '/'
      · simp [hc]
        omega
      · simp [hc]
    have hrest := ih (slashes+if c = '/' then 1 else 0) (fun i hi => by
      have hnext := h (i+1) hi
      rw [List.take_succ_cons,List.count_cons] at hnext
      by_cases hc : c = '/'
      · simp [hc] at hnext ⊢
        omega
      · simpa [hc] using hnext)
    rw [List.cons_append,rawEventsFrom_keep hkeep,hrest,hcount,List.modifyHead_modifyHead]
    rfl

/-- Enclosed texts are the raw events of their comma-join. -/
theorem rawEventsFrom_intercalate (slashes : ℕ) (heven : slashes%2 = 0) {es : List Text}
    (hne : es ≠ []) (h : ∀ e ∈ es, Enclosed e) :
    rawEventsFrom slashes ([','].intercalate es) = es := by
  induction es generalizing slashes with
  | nil => exact absurd rfl hne
  | cons e es ih =>
    obtain ⟨hcount,hcommas⟩ := h e List.mem_cons_self
    have hodd : ∀ i, e[i]? = some ',' → (slashes+(e.take i).count '/')%2 = 1 := fun i hi => by
      have := hcommas i hi
      omega
    cases es with
    | nil =>
      have hone := rawEventsFrom_enclosed slashes e [] hodd
      rw [rawEventsFrom_nil] at hone
      simpa using hone
    | cons e' es =>
      have hjoin := ih (slashes+e.count '/') (by omega) (by simp)
        (fun x hx => h x (List.mem_cons_of_mem _ hx))
      rw [List.intercalate_cons_cons,List.append_assoc,rawEventsFrom_enclosed slashes e _ hodd]
      change List.modifyHead _ (rawEventsFrom _ (','::[','].intercalate (e'::es))) = _
      rw [rawEventsFrom_cut (by omega),hjoin,List.modifyHead_cons,List.append_nil]

/-- The parser accepts the event lists of the documented form, cut at the commas outside slashes,
and throws on a second `#`. -/
theorem parsePerfEvents_spec (s : Text) :
    rawEvents s ≠ [] ∧ [','].intercalate (rawEvents s) = s ∧
    ((∀ r ∈ rawEvents s, r.count '#' ≤ 1) →
      parsePerfEvents s = .ok ((rawEvents s).map eventOf)) ∧
    ((∃ e, parsePerfEvents s = .error e) ↔ ∃ r ∈ rawEvents s, 2 ≤ r.count '#') ∧
    ∀ es : List Text, es ≠ [] → (∀ e ∈ es, Enclosed e ∧ e.count '#' ≤ 1) →
      parsePerfEvents ([','].intercalate es) = .ok (es.map eventOf) := by
  refine ⟨rawEventsFrom_ne_nil 0 s,rawEventsFrom_join 0 s,parsePerfEvents_ok,
    parsePerfEvents_error_iff s,fun es hne h => ?_⟩
  have hraw : rawEvents ([','].intercalate es) = es :=
    rawEventsFrom_intercalate 0 rfl hne (fun e he => (h e he).1)
  have hok := parsePerfEvents_ok (s := [','].intercalate es)
    (by rw [hraw]; exact fun e he => (h e he).2)
  rwa [hraw] at hok

/-- Two events of which one has a comma between slashes and a header. -/
theorem parsePerfEvents_two_events :
    parsePerfEvents "foo/bar,baz/#name,beef".toList =
      .ok [⟨"foo/bar,baz/".toList,"name".toList⟩,⟨"beef".toList,"beef".toList⟩] ∧
    parsePerfEvents ([','].intercalate ["foo/bar,baz/#name".toList,"beef".toList]) =
      .ok [⟨"foo/bar,baz/".toList,"name".toList⟩,⟨"beef".toList,"beef".toList⟩] :=
  ⟨(parsePerfEvents_spec "foo/bar,baz/#name,beef".toList).2.2.1 (by decide),
    (parsePerfEvents_spec []).2.2.2.2 ["foo/bar,baz/#name".toList,"beef".toList] (by decide)
      (by decide)⟩

/-- The join of no events is one empty event, and an event with two `#` is not accepted. -/
theorem parsePerfEvents_not_for_all_lists :
    parsePerfEvents ([','].intercalate []) = .ok [⟨[],[]⟩] ∧
    (∃ e, parsePerfEvents ([','].intercalate ["a#b#c".toList]) = .error e) ∧
    ¬ ∀ es : List Text, (∀ e ∈ es, Enclosed e) → ∃ events,
      parsePerfEvents ([','].intercalate es) = .ok events ∧ events.length = es.length := by
  have hempty : parsePerfEvents ([','].intercalate []) = .ok [⟨[],[]⟩] := rfl
  refine ⟨hempty,(parsePerfEvents_error_iff _).mpr ⟨"a#b#c".toList,by decide,by decide⟩,?_⟩
  intro h
  obtain ⟨events,hevents,hlength⟩ := h [] (by simp)
  rw [hempty] at hevents
  cases hevents
  contradiction

end UarchBench.Perf
