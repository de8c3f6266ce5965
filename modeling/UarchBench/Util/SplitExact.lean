import UarchBench.Util.Split
import Mathlib.Data.List.Infix

/-! What splitting takes out of a text: the separators found from left to right, each one behind
the one before. Both split functions are the same loop over different separators. -/
namespace UarchBench.Util

/-- `std::string::find_first_of`. -/
def findFirstOf (s chars : Text) (start : ℕ) : Option ℕ :=
  if start < s.length then
    ((s.drop start).findIdx? (fun c => chars.contains c)).map (fun i => start+i)
  else none

/-- `split_on_any`. -/
def splitOnAny (text sepChars : Text) : Option (List Text) :=
  splitHelper text (fun s start => (findFirstOf s sepChars start).map (fun pos => (pos,1)))
    (text.length+1) 0 []

/-- From a position on, these are the separators of one length that a scan from left to right
finds, each behind the one before. -/
def Leftmost (occurs : ℕ → Prop) (width : ℕ) : ℕ → List ℕ → Prop
  | start, [] => ∀ i, start ≤ i → ¬ occurs i
  | start, p::ps => start ≤ p ∧ occurs p ∧ (∀ i, start ≤ i → i < p → ¬ occurs i) ∧
      Leftmost occurs width (p+width) ps

/-- The text between the separators. -/
def piecesBetween (text : Text) (width : ℕ) : ℕ → List ℕ → List Text
  | start, [] => [text.drop start]
  | start, p::ps => substr text start (p-start)::piecesBetween text width (p+width) ps

/-- The separators themselves. -/
def removed (text : Text) (width : ℕ) (positions : List ℕ) : List Text :=
  positions.map (fun p => substr text p width)

/-- Pieces and separators in turn. -/
def interleave : List Text → List Text → Text
  | [], _ => []
  | piece::_, [] => piece
  | piece::pieces, sep::seps => piece ++ sep ++ interleave pieces seps

/-- The split function finds the next separator. -/
structure Finds (text : Text) (splitfunc : Text → ℕ → Option (ℕ × ℕ)) (occurs : ℕ → Prop)
    (width : ℕ) : Prop where
  width_pos : 0 < width
  fits : ∀ p, occurs p → p+width ≤ text.length
  found : ∀ start first second, splitfunc text start = some (first,second) →
    second = width ∧ start ≤ first ∧ occurs first ∧ ∀ i, start ≤ i → i < first → ¬ occurs i
  missing : ∀ start, splitfunc text start = none → ∀ i, start ≤ i → ¬ occurs i

section Pieces
variable {text : Text} {occurs : ℕ → Prop} {width : ℕ}

/-- The loop ends, since every separator takes up characters, and its tokens are the text between
the leftmost separators. -/
theorem Finds.splitHelper {splitfunc : Text → ℕ → Option (ℕ × ℕ)}
    (h : Finds text splitfunc occurs width) (fuel start : ℕ) (tokens : List Text)
    (hstart : start ≤ text.length) (hfuel : text.length < fuel+start) :
    ∃ positions, Leftmost occurs width start positions ∧
      splitHelper text splitfunc fuel start tokens =
        some (tokens ++ piecesBetween text width start positions) := by
  induction fuel generalizing start tokens with
  | zero => omega
  | succ fuel ih =>
    rw [Util.splitHelper]
    cases hfind : splitfunc text start with
    | none => exact ⟨[],h.missing start hfind,rfl⟩
    | some result =>
      obtain ⟨first,second⟩ := result
      obtain ⟨rfl,hle,hoccurs,hleast⟩ := h.found start first second hfind
      have hpos := h.width_pos
      have hfits := h.fits first hoccurs
      obtain ⟨positions,hleft,hrun⟩ := ih (first+second)
        (tokens ++ [substr text start (first-start)]) hfits (by omega)
      refine ⟨first::positions,⟨hle,hoccurs,hleast,hleft⟩,?_⟩
      dsimp only
      rw [hrun,List.append_assoc]
      rfl

lemma length_piecesBetween (start : ℕ) (positions : List ℕ) :
    (piecesBetween text width start positions).length = positions.length+1 := by
  induction positions generalizing start with
  | nil => rfl
  | cons p ps ih => rw [piecesBetween,List.length_cons,ih,List.length_cons]

/-- Nothing is lost. -/
theorem interleave_piecesBetween {start : ℕ} {positions : List ℕ}
    (h : Leftmost occurs width start positions) :
    interleave (piecesBetween text width start positions) (removed text width positions) =
      text.drop start := by
  induction positions generalizing start with
  | nil => rfl
  | cons p ps ih =>
    obtain ⟨hle,-,-,hrest⟩ := h
    have hpiece : substr text start (p-start) ++ text.drop p = text.drop start := by
      rw [substr,← Nat.add_sub_cancel' hle,Nat.add_sub_cancel_left,← List.drop_drop]
      exact List.take_append_drop _ _
    have hsep : substr text p width ++ text.drop (p+width) = text.drop p := by
      rw [substr,← List.drop_drop]
      exact List.take_append_drop _ _
    change substr text start (p-start) ++ substr text p width ++ interleave _ _ = _
    rw [removed] at ih
    rw [ih hrest,List.append_assoc,hsep,hpiece]

/-- What lies inside a piece is not a separator. -/
theorem piece_free {start : ℕ} {positions : List ℕ} (h : Leftmost occurs width start positions)
    {piece : Text} (hpiece : piece ∈ piecesBetween text width start positions) :
    ∃ first last, piece = substr text first (last-first) ∧
      ∀ i, first ≤ i → i < last → i < text.length → ¬ occurs i := by
  induction positions generalizing start with
  | nil =>
    obtain rfl := List.mem_singleton.mp hpiece
    refine ⟨start,start+text.length,?_,fun i hi _ _ => h i hi⟩
    rw [substr,Nat.add_sub_cancel_left,List.take_of_length_le]
    rw [List.length_drop]
    omega
  | cons p ps ih =>
    obtain ⟨-,-,hleast,hrest⟩ := h
    rcases List.mem_cons.mp hpiece with rfl | hpiece
    · exact ⟨start,p,rfl,fun i hi hlt _ => hleast i hi hlt⟩
    · exact ih hrest hpiece

end Pieces

/-- The text has the separator at this position. -/
def OccursAt (sep text : Text) (i : ℕ) : Prop := sep <+: text.drop i

lemma findHere_eq_some {sep rest : Text} {i : ℕ} (h : findHere sep rest = some i) :
    OccursAt sep rest i ∧ ∀ j < i, ¬ OccursAt sep rest j := by
  induction rest generalizing i with
  | nil =>
    rw [findHere] at h
    split_ifs at h with hhere
    obtain rfl := Option.some.inj h
    exact ⟨List.isPrefixOf_iff_prefix.mp hhere,fun j hj => absurd hj (Nat.not_lt_zero j)⟩
  | cons c rest ih =>
    rw [findHere] at h
    split_ifs at h with hhere
    · obtain rfl := Option.some.inj h
      exact ⟨List.isPrefixOf_iff_prefix.mp hhere,fun j hj => absurd hj (Nat.not_lt_zero j)⟩
    · obtain ⟨i,hi,rfl⟩ := Option.map_eq_some_iff.mp h
      obtain ⟨hoccurs,hleast⟩ := ih hi
      refine ⟨hoccurs,fun j hj => ?_⟩
      cases j with
      | zero => exact fun h0 => hhere (List.isPrefixOf_iff_prefix.mpr h0)
      | succ j => exact hleast j (Nat.lt_of_succ_lt_succ hj)

lemma findHere_eq_none {sep rest : Text} (h : findHere sep rest = none) (i : ℕ) :
    ¬ OccursAt sep rest i := by
  induction rest generalizing i with
  | nil =>
    rw [findHere] at h
    split_ifs at h with hhere
    rw [OccursAt,List.drop_nil]
    exact fun h0 => hhere (List.isPrefixOf_iff_prefix.mpr h0)
  | cons c rest ih =>
    rw [findHere] at h
    split_ifs at h with hhere
    cases i with
    | zero => exact fun h0 => hhere (List.isPrefixOf_iff_prefix.mpr h0)
    | succ i => exact ih (Option.map_eq_none_iff.mp h) i

lemma occursAt_drop {sep text : Text} {start i : ℕ} :
    OccursAt sep (text.drop start) i ↔ OccursAt sep text (start+i) := by
  rw [OccursAt,OccursAt,List.drop_drop]

lemma OccursAt.le_length {sep text : Text} {i : ℕ} (h : OccursAt sep text i) (hsep : sep ≠ []) :
    i+sep.length ≤ text.length := by
  have hlen := List.IsPrefix.length_le h
  have hpos := List.length_pos_iff.mpr hsep
  rw [List.length_drop] at hlen
  omega

lemma OccursAt.substr_eq {sep text : Text} {i : ℕ} (h : OccursAt sep text i) :
    substr text i sep.length = sep := (List.prefix_iff_eq_take.mp h).symm

/-- `find` returns the first occurrence from its start on. -/
theorem find_eq_some {text sep : Text} {start p : ℕ} (h : find text sep start = some p) :
    start ≤ p ∧ OccursAt sep text p ∧ ∀ i, start ≤ i → i < p → ¬ OccursAt sep text i := by
  rw [find] at h
  split_ifs at h
  obtain ⟨i,hi,rfl⟩ := Option.map_eq_some_iff.mp h
  obtain ⟨hoccurs,hleast⟩ := findHere_eq_some hi
  refine ⟨Nat.le_add_right _ _,occursAt_drop.mp hoccurs,fun j hj hlt hocc => ?_⟩
  obtain ⟨k,rfl⟩ := Nat.exists_eq_add_of_le hj
  exact hleast k (by omega) (occursAt_drop.mpr hocc)

theorem find_eq_none {text sep : Text} (hsep : sep ≠ []) {start : ℕ}
    (h : find text sep start = none) (i : ℕ) (hi : start ≤ i) : ¬ OccursAt sep text i := by
  intro hocc
  have hlen := hocc.le_length hsep
  rw [find,if_pos (by omega),Option.map_eq_none_iff] at h
  obtain ⟨k,rfl⟩ := Nat.exists_eq_add_of_le hi
  exact findHere_eq_none h k (occursAt_drop.mpr hocc)

lemma find_finds (text : Text) {sep : Text} (hsep : sep ≠ []) :
    Finds text (fun s start => (find s sep start).map (fun pos => (pos,sep.length)))
      (OccursAt sep text) sep.length where
  width_pos := List.length_pos_iff.mpr hsep
  fits := fun p hp => hp.le_length hsep
  found := fun start first second h => by
    obtain ⟨p,hp,heq⟩ := Option.map_eq_some_iff.mp h
    obtain ⟨rfl,rfl⟩ := Prod.mk.inj heq
    exact ⟨rfl,find_eq_some hp⟩
  missing := fun start h => find_eq_none hsep (Option.map_eq_none_iff.mp h)

/-- Between equal separators interleaving is joining. -/
lemma interleave_eq_intercalate {sep : Text} {pieces seps : List Text}
    (hlen : pieces.length = seps.length+1) (hseps : ∀ s ∈ seps, s = sep) :
    interleave pieces seps = sep.intercalate pieces := by
  induction seps generalizing pieces with
  | nil =>
    obtain ⟨piece,rfl⟩ := List.length_eq_one_iff.mp hlen
    simp [interleave]
  | cons s seps ih =>
    obtain ⟨piece,pieces,rfl⟩ := List.exists_cons_of_length_eq_add_one hlen
    obtain ⟨rfl,hseps⟩ := List.forall_mem_cons.mp hseps
    have hlen' : pieces.length = seps.length+1 := Nat.succ.inj hlen
    obtain ⟨piece',pieces,rfl⟩ := List.exists_cons_of_length_eq_add_one hlen'
    rw [interleave,ih hlen' hseps,List.intercalate_cons_cons,List.append_assoc]

/-- A separator inside a piece would have been found. -/
lemma not_infix_piece {text sep : Text} (hsep : sep ≠ []) {start : ℕ} {positions : List ℕ}
    (h : Leftmost (OccursAt sep text) sep.length start positions) {piece : Text}
    (hpiece : piece ∈ piecesBetween text sep.length start positions) : ¬ sep <:+: piece := by
  rintro ⟨a,b,hab⟩
  obtain ⟨first,last,rfl,hfree⟩ := piece_free h hpiece
  have hpos := List.length_pos_iff.mpr hsep
  have hlen := congrArg List.length hab
  rw [substr,List.length_take,List.length_drop,List.length_append,List.length_append] at hlen
  refine hfree (first+a.length) (by omega) (by omega) (by omega) ?_
  have hdrop : text.drop first = a ++ sep ++ b ++ (text.drop first).drop (last-first) := by
    rw [hab,substr,List.take_append_drop]
  rw [OccursAt,← List.drop_drop,hdrop,List.append_assoc,List.append_assoc,List.drop_left]
  exact List.prefix_append _ _

/-- The text has one of the characters at this position. -/
def AnyAt (chars text : Text) (i : ℕ) : Prop := ∃ c ∈ chars, text[i]? = some c

lemma AnyAt.lt_length {chars text : Text} {i : ℕ} (h : AnyAt chars text i) : i < text.length := by
  obtain ⟨c,-,hc⟩ := h
  exact (List.getElem?_eq_some_iff.mp hc).1

lemma AnyAt.substr_eq {chars text : Text} {i : ℕ} (h : AnyAt chars text i) :
    ∃ c ∈ chars, substr text i 1 = [c] := by
  obtain ⟨c,hc,hi⟩ := h
  obtain ⟨hlt,rfl⟩ := List.getElem?_eq_some_iff.mp hi
  refine ⟨_,hc,?_⟩
  rw [substr,List.drop_eq_getElem_cons hlt,List.take_succ_cons,List.take_zero]

theorem findFirstOf_eq_some {text chars : Text} {start p : ℕ}
    (h : findFirstOf text chars start = some p) :
    start ≤ p ∧ AnyAt chars text p ∧ ∀ i, start ≤ i → i < p → ¬ AnyAt chars text i := by
  rw [findFirstOf] at h
  split_ifs at h
  obtain ⟨k,hk,rfl⟩ := Option.map_eq_some_iff.mp h
  obtain ⟨hlt,hmem,hleast⟩ := List.findIdx?_eq_some_iff_getElem.mp hk
  rw [List.length_drop] at hlt
  refine ⟨Nat.le_add_right _ _,⟨text[start+k],?_,List.getElem?_eq_getElem (by omega)⟩,?_⟩
  · rwa [List.getElem_drop,List.contains_iff_mem] at hmem
  · rintro i hi hik ⟨c,hc,hget⟩
    obtain ⟨j,rfl⟩ := Nat.exists_eq_add_of_le hi
    obtain ⟨hj,rfl⟩ := List.getElem?_eq_some_iff.mp hget
    refine hleast j (by omega) ?_
    rwa [List.getElem_drop,List.contains_iff_mem]

theorem findFirstOf_eq_none {text chars : Text} {start : ℕ}
    (h : findFirstOf text chars start = none) (i : ℕ) (hi : start ≤ i) :
    ¬ AnyAt chars text i := by
  intro hany
  have hlt := hany.lt_length
  obtain ⟨c,hc,hget⟩ := hany
  obtain ⟨j,rfl⟩ := Nat.exists_eq_add_of_le hi
  rw [findFirstOf,if_pos (by omega),Option.map_eq_none_iff,List.findIdx?_eq_none_iff] at h
  have hno := h c (List.mem_iff_getElem?.mpr ⟨j,by rw [List.getElem?_drop,hget]⟩)
  rw [List.contains_iff_mem.mpr hc] at hno
  cases hno

lemma findFirstOf_finds (text chars : Text) :
    Finds text (fun s start => (findFirstOf s chars start).map (fun pos => (pos,1)))
      (AnyAt chars text) 1 where
  width_pos := Nat.one_pos
  fits := fun p hp => hp.lt_length
  found := fun start first second h => by
    obtain ⟨p,hp,heq⟩ := Option.map_eq_some_iff.mp h
    obtain ⟨rfl,rfl⟩ := Prod.mk.inj heq
    exact ⟨rfl,findFirstOf_eq_some hp⟩
  missing := fun start h => findFirstOf_eq_none (Option.map_eq_none_iff.mp h)

/-- A separator character inside a piece would have been found. -/
lemma not_mem_piece {text chars : Text} {start : ℕ} {positions : List ℕ}
    (h : Leftmost (AnyAt chars text) 1 start positions) {piece : Text}
    (hpiece : piece ∈ piecesBetween text 1 start positions) : ∀ c ∈ chars, c ∉ piece := by
  intro c hc hmem
  obtain ⟨first,last,rfl,hfree⟩ := piece_free h hpiece
  obtain ⟨k,hk,hget⟩ := List.mem_iff_getElem.mp hmem
  rw [substr,List.length_take,List.length_drop] at hk
  refine hfree (first+k) (Nat.le_add_right _ _) (by omega) (by omega) ⟨c,hc,?_⟩
  rw [← hget,List.getElem?_eq_getElem (by omega)]
  simp [substr]

lemma Leftmost.forall_occurs {occurs : ℕ → Prop} {width start : ℕ} {positions : List ℕ}
    (h : Leftmost occurs width start positions) : ∀ p ∈ positions, occurs p := by
  induction positions generalizing start with
  | nil => exact List.forall_mem_nil _
  | cons p ps ih => exact List.forall_mem_cons.mpr ⟨h.2.1,ih h.2.2.2⟩

/-- The loops end for every text; they take out the leftmost separators and nothing else, and no
separator stays in a piece. For one character splitting undoes joining. -/
theorem split_exact (text : Text) :
    (∀ sep, sep ≠ [] → ∃ positions pieces, splitOnString text sep = some pieces ∧
      Leftmost (OccursAt sep text) sep.length 0 positions ∧
      pieces = piecesBetween text sep.length 0 positions ∧
      sep.intercalate pieces = text ∧ ∀ piece ∈ pieces, ¬ sep <:+: piece) ∧
    (∀ sepChars, ∃ positions pieces, splitOnAny text sepChars = some pieces ∧
      Leftmost (AnyAt sepChars text) 1 0 positions ∧
      pieces = piecesBetween text 1 0 positions ∧
      interleave pieces (removed text 1 positions) = text ∧
      (∀ r ∈ removed text 1 positions, ∃ c ∈ sepChars, r = [c]) ∧
      ∀ piece ∈ pieces, ∀ c ∈ sepChars, c ∉ piece) ∧
    ∀ c (pieces : List Text), pieces ≠ [] → (∀ piece ∈ pieces, c ∉ piece) →
      splitOnString ([c].intercalate pieces) [c] = some pieces := by
  refine ⟨fun sep hsep => ?_,fun sepChars => ?_,fun c pieces hne hfree => ?_⟩
  · obtain ⟨positions,hleft,hrun⟩ := (find_finds text hsep).splitHelper (text.length+1) 0 []
      (Nat.zero_le _) (by omega)
    have hjoin : interleave (piecesBetween text sep.length 0 positions)
        (removed text sep.length positions) =
        sep.intercalate (piecesBetween text sep.length 0 positions) := by
      refine interleave_eq_intercalate ?_ (fun s hs => ?_)
      · rw [length_piecesBetween,removed,List.length_map]
      · obtain ⟨p,hp,rfl⟩ := List.mem_map.mp hs
        exact (hleft.forall_occurs p hp).substr_eq
    refine ⟨positions,_,hrun,hleft,rfl,?_,fun piece hpiece => not_infix_piece hsep hleft hpiece⟩
    rw [List.nil_append,← hjoin,interleave_piecesBetween hleft,List.drop_zero]
  · obtain ⟨positions,hleft,hrun⟩ := (findFirstOf_finds text sepChars).splitHelper
      (text.length+1) 0 [] (Nat.zero_le _) (by omega)
    refine ⟨positions,_,hrun,hleft,rfl,?_,fun r hr => ?_,
      fun piece hpiece => not_mem_piece hleft hpiece⟩
    · rw [List.nil_append,interleave_piecesBetween hleft,List.drop_zero]
    · obtain ⟨p,hp,rfl⟩ := List.mem_map.mp hr
      exact (hleft.forall_occurs p hp).substr_eq
  · rw [splitOnString_char,List.splitOn_intercalate c hfree hne]

/-- A text with adjacent separators and one at its end. -/
theorem split_exact_adjacent :
    (∃ positions pieces, splitOnString "xababy".toList "ab".toList = some pieces ∧
      Leftmost (OccursAt "ab".toList "xababy".toList) 2 0 positions ∧
      pieces = piecesBetween "xababy".toList 2 0 positions ∧
      "ab".toList.intercalate pieces = "xababy".toList ∧
      ∀ piece ∈ pieces, ¬ "ab".toList <:+: piece) ∧
    splitOnString ([','].intercalate [[],['a'],[]]) [','] = some [[],['a'],[]] :=
  ⟨(split_exact "xababy".toList).1 "ab".toList (by decide),
    (split_exact []).2.2 ',' [[],['a'],[]] (by decide) (by decide)⟩

example : splitOnAny "xxayyybzzzz".toList "ab".toList =
    some ["xx".toList,"yyy".toList,"zzzz".toList] := by decide

end UarchBench.Util
