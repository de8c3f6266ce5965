import Mathlib.Data.Nat.Init

/-! Splitting of strings. A string is the list of its characters; positions are as in the source,
with `none` for `npos`. -/
namespace UarchBench.Util

abbrev Text := List Char

/-- The first occurrence of `sep` in what is left of a text. -/
def findHere (sep : Text) : Text → Option ℕ
  | [] => if sep.isPrefixOf [] then some 0 else none
  | c::rest => if sep.isPrefixOf (c::rest) then some 0 else (findHere sep rest).map (·+1)

/-- `std::string::find`. -/
def find (s sep : Text) (start : ℕ) : Option ℕ :=
  if start ≤ s.length then (findHere sep (s.drop start)).map (fun i => start+i) else none

/-- `std::string::substr`. -/
def substr (s : Text) (start length : ℕ) : Text := (s.drop start).take length

/-- `split_helper`: the split function returns the position and the length of the separator. There
is no result when the fuel runs out, as for a separator without characters. -/
def splitHelper (text : Text) (splitfunc : Text → ℕ → Option (ℕ × ℕ)) :
    ℕ → ℕ → List Text → Option (List Text)
  | 0, _, _ => none
  | fuel+1, start, tokens =>
    match splitfunc text start with
    | some (first,second) =>
      splitHelper text splitfunc fuel (first+second)
        (tokens ++ [substr text start (first-start)])
    | none => some (tokens ++ [text.drop start])

/-- `split_on_string`, with fuel for one token more than there are characters. -/
def splitOnString (text sep : Text) : Option (List Text) :=
  splitHelper text (fun s start => (find s sep start).map (fun pos => (pos,sep.length)))
    (text.length+1) 0 []

section Char
variable (c : Char)

lemma findHere_none {rest : Text} (h : c ∉ rest) : findHere [c] rest = none := by
  induction rest with
  | nil => rfl
  | cons x rest ih =>
    rw [List.mem_cons,not_or] at h
    have hx : ¬ c = x := h.1
    simp [findHere,hx,ih h.2]

lemma findHere_append {a : Text} (h : c ∉ a) (b : Text) :
    findHere [c] (a ++ c::b) = some a.length := by
  induction a with
  | nil => simp [findHere]
  | cons x a ih =>
    rw [List.mem_cons,not_or] at h
    have hx : ¬ c = x := h.1
    simp [findHere,hx,ih h.2]

lemma find_zero_eq_none_iff (s : Text) : find s [c] 0 = none ↔ c ∉ s := by
  rw [find,if_pos (Nat.zero_le _),List.drop_zero,Option.map_eq_none_iff]
  constructor
  · intro h hmem
    obtain ⟨a,b,rfl,ha⟩ := List.eq_append_cons_of_mem hmem
    rw [findHere_append c ha] at h
    exact Option.some_ne_none _ h
  · exact findHere_none c

/-- One trip of the loop on what is left of the text, in the terms of the standard split. -/
lemma splitHelper_char {text : Text} (fuel start : ℕ) (tokens : List Text)
    (hstart : start ≤ text.length) (hfuel : text.length < fuel+start) :
    splitHelper text (fun s start => (find s [c] start).map (fun pos => (pos,1))) fuel start
      tokens = some (tokens ++ (text.drop start).splitOn c) := by
  induction fuel generalizing start tokens with
  | zero => omega
  | succ fuel ih =>
    by_cases hmem : c ∈ text.drop start
    · obtain ⟨a,b,hsplit,ha⟩ := List.eq_append_cons_of_mem hmem
      have hlen : text.length-start = a.length+(b.length+1) := by
        rw [← List.length_drop,hsplit,List.length_append,List.length_cons]
      have hfind : find text [c] start = some (start+a.length) := by
        rw [find,if_pos hstart,hsplit,findHere_append c ha]
        rfl
      have hnext : text.drop (start+a.length+1) = b := by
        rw [Nat.add_assoc,← List.drop_drop,hsplit,← List.drop_drop,List.drop_left]
        rfl
      have htoken : substr text start (start+a.length-start) = a := by
        rw [substr,hsplit,Nat.add_sub_cancel_left,List.take_left]
      rw [splitHelper,hfind]
      change splitHelper text _ fuel (start+a.length+1) _ = _
      rw [ih _ _ (by omega) (by omega),htoken,hnext,hsplit,
        List.splitOn_append_cons_self,List.splitOn_eq_singleton ha,List.append_assoc]
    · have hfind : find text [c] start = none := by
        rw [find,if_pos hstart,findHere_none c hmem]
        rfl
      rw [splitHelper,hfind,List.splitOn_eq_singleton hmem]
      rfl

/-- The loop ends, and its tokens are those of the standard split. -/
theorem splitOnString_char (text : Text) : splitOnString text [c] = some (text.splitOn c) := by
  have h := splitHelper_char c (text.length+1) 0 [] (Nat.zero_le text.length) (by omega)
  rwa [List.nil_append,List.drop_zero] at h

end Char
end UarchBench.Util
