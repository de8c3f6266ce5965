import UarchBench.Base.FieldText
import UarchBench.Perf.Init

/-! The display of event attributes: the unit, a slash, the fields that are not zero, and a slash
in place of the last comma. Without fields there is no comma, and the only slash stays open. -/
namespace UarchBench.Perf
open Base Util

/-- `%lx`. -/
def toHexString (l : Int64) : Text := Nat.toDigits 16 l.toUInt64.toNat

/-- `APPEND_IF_NZ2`. -/
def appendIfNz (name : Text) (field : UInt64) (ret : Text) : Text :=
  if field ≠ 0 then ret ++ (name ++ ['=','0','x'] ++ toHexString field.toInt64 ++ [',']) else ret

section Display
variable (resolvePmu : UInt32 → Option Text)

/-- The unit of an event, which the event library may not know. -/
def pmuName (attr : PerfEventAttr) : Text := (resolvePmu attr.type).getD ['?','?','?']

/-- `perf_attr_to_string`. -/
def perfAttrToString (attr : PerfEventAttr) : Text :=
  let ret := pmuName resolvePmu attr ++ ['/']
  let ret := appendIfNz "config".toList attr.config ret
  let ret := appendIfNz "config1".toList attr.config1 ret
  let ret := appendIfNz "config2".toList attr.config2 ret
  let ret := appendIfNz "period".toList attr.samplePeriod ret
  let ret := appendIfNz "sample_type".toList attr.sampleType ret
  let ret := appendIfNz "read_format".toList attr.readFormat ret
  ret.set (ret.length-1) '/'

/-- The fields that the display shows, under their names there. -/
def printedFields (attr : PerfEventAttr) : List (Text × UInt64) :=
  [("config".toList,attr.config),("config1".toList,attr.config1),
    ("config2".toList,attr.config2),("period".toList,attr.samplePeriod),
    ("sample_type".toList,attr.sampleType),("read_format".toList,attr.readFormat)]

def renderField (v : UInt64) : Text := '0' :: 'x'::toHexString v.toInt64

/-- What the display has between the first slash and the last character. -/
def shownFields (attr : PerfEventAttr) : Text :=
  fieldsText '=' ',' 0 renderField (printedFields attr)

lemma renderField_injective : Function.Injective renderField := by
  intro v w h
  have hdigits := (List.cons.inj (List.cons.inj h).2).2
  have hnat := toDigits_inj (by omega) le_rfl hdigits
  rw [UInt64.toUInt64_toInt64,UInt64.toUInt64_toInt64] at hnat
  exact UInt64.toNat_inj.mp hnat

lemma mem_renderField {v : UInt64} {c : Char} (h : c ∈ renderField v) :
    c ∈ 'x'::(List.range 16).map Nat.digitChar := by
  rcases List.mem_cons.mp h with rfl | h
  · decide
  · rcases List.mem_cons.mp h with rfl | h
    · exact List.mem_cons_self
    · obtain ⟨d,hd,rfl⟩ := mem_toDigits (by omega) h
      exact List.mem_cons_of_mem _ (List.mem_map_of_mem (List.mem_range.mpr hd))

lemma comma_not_mem_renderField (v : UInt64) : ',' ∉ renderField v :=
  fun h => absurd (mem_renderField h) (by decide)

/-- The characters of the fields. -/
lemma mem_shownFields {attr : PerfEventAttr} {c : Char} (h : c ∈ shownFields attr) :
    c ≠ '/' ∧ c ≠ '#' := by
  obtain ⟨field,hfield,hc⟩ := mem_fieldsText h
  have hname : ∀ name ∈ (printedFields attr).map Prod.fst, '/' ∉ name ∧ '#' ∉ name := by
    change ∀ name ∈ ["config".toList,"config1".toList,"config2".toList,"period".toList,
      "sample_type".toList,"read_format".toList], _
    decide
  have hnames := hname field.1 (List.mem_map_of_mem hfield)
  have hslash : '/' ∉ 'x'::(List.range 16).map Nat.digitChar := by decide
  have hhash : '#' ∉ 'x'::(List.range 16).map Nat.digitChar := by decide
  rcases hc with hc | rfl | hc | rfl
  · exact ⟨fun h => hnames.1 (h ▸ hc),fun h => hnames.2 (h ▸ hc)⟩
  · decide
  · exact ⟨fun h => hslash (h ▸ mem_renderField hc),fun h => hhash (h ▸ mem_renderField hc)⟩
  · decide

lemma shownFields_inj {attr attr' : PerfEventAttr} (h : shownFields attr = shownFields attr') :
    printedFields attr = printedFields attr' := by
  refine fieldsText_inj renderField_injective comma_not_mem_renderField rfl ?_ ?_ h
  · change ["config".toList,"config1".toList,"config2".toList,"period".toList,
      "sample_type".toList,"read_format".toList].Nodup
    decide
  · change ∀ name ∈ ["config".toList,"config1".toList,"config2".toList,"period".toList,
      "sample_type".toList,"read_format".toList], '=' ∉ name
    decide

lemma appendIfNz_eq (name : Text) (field : UInt64) (ret : Text) :
    appendIfNz name field ret = ret ++ fieldText '=' ',' 0 renderField (name,field) := by
  rw [appendIfNz,fieldText]
  by_cases h : field = 0
  · rw [if_neg (not_not.mpr h),if_pos h,List.append_nil]
  · rw [if_pos h,if_neg h,List.append_assoc,List.append_assoc]
    rfl

lemma perfAttrToString_eq (attr : PerfEventAttr) : perfAttrToString resolvePmu attr =
    (pmuName resolvePmu attr ++ '/'::shownFields attr).set
      ((pmuName resolvePmu attr ++ '/'::shownFields attr).length-1) '/' := by
  have hret : appendIfNz "read_format".toList attr.readFormat
      (appendIfNz "sample_type".toList attr.sampleType
        (appendIfNz "period".toList attr.samplePeriod
          (appendIfNz "config2".toList attr.config2
            (appendIfNz "config1".toList attr.config1
              (appendIfNz "config".toList attr.config
                (pmuName resolvePmu attr ++ ['/'])))))) =
      pmuName resolvePmu attr ++ '/'::shownFields attr := by
    simp only [appendIfNz_eq,shownFields,printedFields,fieldsText_cons,List.append_assoc,
      List.cons_append,List.nil_append]
    simp [fieldsText]
  rw [perfAttrToString,hret]

lemma set_last (front : Text) (c d : Char) :
    (front ++ [c]).set ((front ++ [c]).length-1) d = front ++ [d] := by
  rw [List.length_append,List.length_singleton,Nat.add_sub_cancel,
    List.set_append_right _ _ le_rfl,Nat.sub_self,List.set_cons_zero]

lemma perfAttrToString_empty {attr : PerfEventAttr} (h : shownFields attr = []) :
    perfAttrToString resolvePmu attr = pmuName resolvePmu attr ++ ['/'] := by
  rw [perfAttrToString_eq,h,set_last]

lemma perfAttrToString_fields {attr : PerfEventAttr} {front : Text}
    (h : shownFields attr = front ++ [',']) :
    perfAttrToString resolvePmu attr = pmuName resolvePmu attr ++ '/'::(front ++ ['/']) := by
  have hlast := set_last (pmuName resolvePmu attr ++ '/'::front) ',' '/'
  rw [List.append_assoc,List.append_assoc,List.cons_append,List.cons_append] at hlast
  rw [perfAttrToString_eq,h,hlast]

/-- The text of the fields is empty if all of them are zero, and ends with a comma otherwise. -/
lemma shownFields_cases (attr : PerfEventAttr) :
    ((∀ field ∈ printedFields attr, field.2 = 0) ∧ shownFields attr = []) ∨
      (∃ field ∈ printedFields attr, field.2 ≠ 0) ∧ ∃ front, shownFields attr = front ++ [','] := by
  by_cases h : shownFields attr = []
  · exact Or.inl ⟨fieldsText_eq_nil.mp h,h⟩
  · refine Or.inr ⟨?_,fieldsText_getLast h⟩
    by_contra hnone
    push Not at hnone
    exact h (fieldsText_eq_nil.mpr hnone)

/-- Only the parity of the slashes matters. -/
lemma rawEventsFrom_add_two (slashes : ℕ) (s : Text) :
    rawEventsFrom (slashes+2) s = rawEventsFrom slashes s := by
  have hparity : withParity (slashes+2) s = withParity slashes s := by
    rw [withParity,withParity]
    refine congrArg (fun f => List.mapIdx f s) ?_
    funext i c
    rw [show slashes+2+(s.take i).count '/' = slashes+(s.take i).count '/'+2 by omega,
      Nat.add_mod_right]
  rw [rawEventsFrom,rawEventsFrom,hparity]

/-- Text without slashes and commas passes at any parity, text without slashes inside them. -/
lemma rawEventsFrom_plain (slashes : ℕ) {e : Text} (hslash : '/' ∉ e)
    (hcomma : ',' ∈ e → slashes%2 = 1) (s : Text) :
    rawEventsFrom slashes (e ++ s) = (rawEventsFrom slashes s).modifyHead (e ++ ·) := by
  have hcount : ∀ i, (e.take i).count '/' = 0 := fun i =>
    List.count_eq_zero.mpr (fun h => hslash (List.mem_of_mem_take h))
  rw [rawEventsFrom_enclosed slashes e s (fun i hi => by
    rw [hcount i]
    exact hcomma (List.mem_of_getElem? hi)),List.count_eq_zero.mpr hslash,Nat.add_zero]

lemma rawEventsFrom_slash (slashes : ℕ) (s : Text) :
    rawEventsFrom slashes ('/'::s) = (rawEventsFrom (slashes+1) s).modifyHead ('/'::·) := by
  rw [rawEventsFrom_keep (fun h => absurd h.1 (by decide)),if_pos rfl]

/-- A unit with its fields between two slashes is one raw event. -/
lemma rawEvents_slashed {pmu front : Text} (hslash : '/' ∉ pmu) (hcomma : ',' ∉ pmu)
    (hfront : '/' ∉ front) (s : Text) :
    rawEvents (pmu ++ '/'::(front ++ '/' :: ',' :: s)) =
      (pmu ++ '/'::(front ++ ['/']))::rawEvents s := by
  rw [rawEvents,rawEventsFrom_plain 0 hslash (fun h => absurd h hcomma),rawEventsFrom_slash,
    rawEventsFrom_plain _ hfront (fun _ => rfl),rawEventsFrom_slash,rawEventsFrom_cut rfl,
    rawEventsFrom_add_two]
  rfl

/-- A unit with one slash takes the comma behind it along. -/
lemma rawEvents_open {pmu : Text} (hslash : '/' ∉ pmu) (hcomma : ',' ∉ pmu) :
    rawEvents (pmu ++ ['/',',']) = [pmu ++ ['/',',']] := by
  have hend : rawEventsFrom 1 [','] = [[',']] := by
    rw [rawEventsFrom_keep (by decide),rawEventsFrom_nil]
    rfl
  rw [rawEvents,rawEventsFrom_plain 0 hslash (fun h => absurd h hcomma),rawEventsFrom_slash,hend]
  rfl

lemma namedEvent_plain {r : Text} (h : '#' ∉ r) : namedEvent r = .ok (NamedEvent.ofName r) :=
  if_pos ((find_zero_eq_none_iff '#' r).mpr h)

lemma parsePerfEvents_cons {r s t : Text} (hr : '#' ∉ r) (hraw : rawEvents t = r::rawEvents s) :
    parsePerfEvents t = (parsePerfEvents s).map (NamedEvent.ofName r :: ·) := by
  rw [parsePerfEvents_eq,parsePerfEvents_eq,hraw,List.mapM_cons,namedEvent_plain hr]
  cases (rawEvents s).mapM namedEvent <;> rfl

/-- The characters that the parser looks at do not occur in the names of units. -/
def PlainUnits : Prop :=
  ∀ type name, resolvePmu type = some name → '/' ∉ name ∧ ',' ∉ name ∧ '#' ∉ name

variable {resolvePmu} (hplain : PlainUnits resolvePmu)
include hplain

lemma pmuName_plain (attr : PerfEventAttr) : '/' ∉ pmuName resolvePmu attr ∧
    ',' ∉ pmuName resolvePmu attr ∧ '#' ∉ pmuName resolvePmu attr := by
  rw [pmuName]
  cases h : resolvePmu attr.type with
  | none => decide
  | some name => exact hplain attr.type name h

lemma perfAttrToString_parses {attr : PerfEventAttr} {front : Text}
    (hshown : shownFields attr = front ++ [',']) (s : Text) :
    parsePerfEvents (perfAttrToString resolvePmu attr ++ ','::s) =
      (parsePerfEvents s).map (NamedEvent.ofName (perfAttrToString resolvePmu attr) :: ·) := by
  obtain ⟨hslash,hcomma,hhash⟩ := pmuName_plain hplain attr
  have hfront : ∀ c ∈ front, c ≠ '/' ∧ c ≠ '#' := by
    intro c hc
    have hmem : c ∈ shownFields attr := hshown ▸ List.mem_append_left [','] hc
    exact mem_shownFields hmem
  have hraw := rawEvents_slashed hslash hcomma (fun h => (hfront _ h).1 rfl) s
  rw [perfAttrToString_fields resolvePmu hshown]
  refine parsePerfEvents_cons ?_ ?_
  · simp only [List.mem_append,List.mem_cons,List.not_mem_nil,or_false,not_or]
    exact ⟨hhash,by decide,fun h => (hfront _ h).2 rfl,by decide⟩
  · rw [List.append_assoc,List.cons_append,List.append_assoc]
    exact hraw

lemma perfAttrToString_open {attr : PerfEventAttr} (hshown : shownFields attr = []) :
    parsePerfEvents (perfAttrToString resolvePmu attr ++ ','::[]) =
      .ok [NamedEvent.ofName (pmuName resolvePmu attr ++ ['/',','])] := by
  obtain ⟨hslash,hcomma,hhash⟩ := pmuName_plain hplain attr
  rw [perfAttrToString_empty resolvePmu hshown,List.append_assoc,parsePerfEvents_eq]
  change (rawEvents (pmuName resolvePmu attr ++ ['/',','])).mapM namedEvent = _
  rw [rawEvents_open hslash hcomma,List.mapM_cons,namedEvent_plain]
  · rfl
  · simp only [List.mem_append,List.mem_cons,List.not_mem_nil,or_false,not_or]
    exact ⟨hhash,by decide,by decide⟩

lemma perfAttrToString_inj {attr attr' : PerfEventAttr}
    (h : perfAttrToString resolvePmu attr = perfAttrToString resolvePmu attr') :
    pmuName resolvePmu attr = pmuName resolvePmu attr' ∧
      printedFields attr = printedFields attr' := by
  have hname := (pmuName_plain hplain attr).1
  have hname' := (pmuName_plain hplain attr').1
  rcases shownFields_cases attr with ⟨-,hshown⟩ | ⟨-,front,hshown⟩
  · rw [perfAttrToString_empty resolvePmu hshown] at h
    rcases shownFields_cases attr' with ⟨-,hshown'⟩ | ⟨-,front',hshown'⟩
    · rw [perfAttrToString_empty resolvePmu hshown'] at h
      exact ⟨List.append_cancel_right h,shownFields_inj (hshown.trans hshown'.symm)⟩
    · rw [perfAttrToString_fields resolvePmu hshown'] at h
      have htail := (append_mark_inj hname hname' h).2
      exact absurd htail.symm (List.append_ne_nil_of_right_ne_nil _ (List.cons_ne_nil _ _))
  · rw [perfAttrToString_fields resolvePmu hshown] at h
    rcases shownFields_cases attr' with ⟨-,hshown'⟩ | ⟨-,front',hshown'⟩
    · rw [perfAttrToString_empty resolvePmu hshown'] at h
      have htail := (append_mark_inj hname hname' h).2
      exact absurd htail (List.append_ne_nil_of_right_ne_nil _ (List.cons_ne_nil _ _))
    · rw [perfAttrToString_fields resolvePmu hshown'] at h
      obtain ⟨hpmu,htail⟩ := append_mark_inj hname hname' h
      have hsame := List.append_cancel_right htail
      exact ⟨hpmu,shownFields_inj (by rw [hshown,hshown',hsame])⟩

/-- The display of an event is one event for the parser, whatever follows, exactly if it shows a
field. In any case it determines the unit and the fields. -/
theorem perfAttrToString_one_event_iff (attr : PerfEventAttr) :
    ((∀ s, parsePerfEvents (perfAttrToString resolvePmu attr ++ ','::s) =
        (parsePerfEvents s).map (NamedEvent.ofName (perfAttrToString resolvePmu attr) :: ·)) ↔
      ∃ field ∈ printedFields attr, field.2 ≠ 0) ∧
    ∀ attr', perfAttrToString resolvePmu attr = perfAttrToString resolvePmu attr' →
      pmuName resolvePmu attr = pmuName resolvePmu attr' ∧
        printedFields attr = printedFields attr' := by
  refine ⟨?_,fun attr' => perfAttrToString_inj hplain⟩
  rcases shownFields_cases attr with ⟨hzero,hshown⟩ | ⟨hsome,front,hshown⟩
  · refine iff_of_false (fun h => ?_) (fun ⟨field,hfield,hne⟩ => hne (hzero field hfield))
    have hopen := h []
    rw [perfAttrToString_open hplain hshown] at hopen
    have hempty : parsePerfEvents [] = .ok [NamedEvent.ofName []] := rfl
    rw [hempty] at hopen
    exact absurd (congrArg List.length (Except.ok.inj hopen)) (Nat.ne_of_lt Nat.one_lt_two)
  · exact iff_of_true (perfAttrToString_parses hplain hshown) hsome

end Display

lemma plainUnits_cpu : PlainUnits (fun _ => some "cpu".toList) := by
  intro _ name h
  obtain rfl : "cpu".toList = name := Option.some.inj h
  decide

theorem perfAttrToString_one_event_cpu :
    parsePerfEvents (perfAttrToString (fun _ => some "cpu".toList)
        { config := 60, samplePeriod := 7 } ++ ','::"beef".toList) =
      .ok [NamedEvent.ofName "cpu/config=0x3c,period=0x7/".toList,
        NamedEvent.ofName "beef".toList] :=
  (perfAttrToString_one_event_iff plainUnits_cpu { config := 60, samplePeriod := 7 }).1.mpr
    ⟨("config".toList,60),List.mem_cons_self,by decide⟩ "beef".toList

/-- Without fields the display of an event and the comma behind it become one event. -/
theorem perfAttrToString_zero_swallows : ¬ ∀ resolvePmu, PlainUnits resolvePmu → ∀ attr s,
    parsePerfEvents (perfAttrToString resolvePmu attr ++ ','::s) =
      (parsePerfEvents s).map (NamedEvent.ofName (perfAttrToString resolvePmu attr) :: ·) := by
  intro h
  have hcpu := h (fun _ => some "cpu".toList) plainUnits_cpu {} "beef".toList
  exact absurd hcpu (by decide)

end UarchBench.Perf
