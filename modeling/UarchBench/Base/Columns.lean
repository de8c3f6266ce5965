import Mathlib.Data.List.Basic
import Mathlib.Data.List.Forall2
import Mathlib.Algebra.Order.Ring.Nat

/-! Fields in columns: rows of different lengths, the greatest size in each column, and where a
field stands in a line in which one blank separates it from the next. -/
namespace UarchBench.Base

/-- Elementwise maxima; the longer list continues alone. -/
def widen : List ℕ → List ℕ → List ℕ
  | [], ys => ys
  | xs, [] => xs
  | x::xs, y::ys => max x y::widen xs ys

lemma widen_nil (xs : List ℕ) : widen xs [] = xs := by cases xs <;> rfl

lemma widen_getElem? (xs ys : List ℕ) (j : ℕ) :
    (widen xs ys)[j]? = Option.merge max xs[j]? ys[j]? := by
  induction xs generalizing ys j with
  | nil => simp [widen]
  | cons x xs ih =>
    cases ys with
    | nil => simp [widen]
    | cons y ys =>
      cases j with
      | zero => rfl
      | succ j => simpa [widen] using ih ys j

/-- The sizes in a column, of the rows that reach it. -/
def column (rows : List (List ℕ)) (j : ℕ) : List ℕ := rows.filterMap (fun row => row[j]?)

lemma foldl_widen_from (rows : List (List ℕ)) (sizes : List ℕ) (j : ℕ) :
    (rows.foldl widen sizes)[j]? = (sizes[j]?.toList ++ column rows j).max? := by
  induction rows generalizing sizes with
  | nil => cases h : sizes[j]? <;> simp [column,h]
  | cons row rows ih =>
    rw [List.foldl_cons,ih,widen_getElem?,column,column,List.filterMap_cons]
    cases hs : sizes[j]? with
    | none => cases hr : row[j]? <;> simp
    | some a =>
      cases hr : row[j]? with
      | none => simp
      | some b => rfl

/-- Widening by all rows gives the greatest size in each column. -/
theorem foldl_widen (rows : List (List ℕ)) (j : ℕ) :
    (rows.foldl widen [])[j]? = (column rows j).max? := by
  simpa using foldl_widen_from rows [] j

section Lines
variable {α : Type} (blank : α)

def joined (fields : List (List α)) : List α := [blank].intercalate fields

/-- Where a field begins. -/
def offset (fields : List (List α)) (c : ℕ) : ℕ :=
  ((fields.take c).map (fun f => f.length+1)).sum

lemma offset_cons (f : List α) (fields : List (List α)) (c : ℕ) :
    offset (f::fields) (c+1) = f.length+1+offset fields c := by
  rw [offset,List.take_succ_cons,List.map_cons,List.sum_cons,offset]

variable {blank}

lemma joined_cons {fields : List (List α)} (h : fields ≠ []) (f : List α) :
    joined blank (f::fields) = f ++ blank::joined blank fields := by
  obtain ⟨g,rest,rfl⟩ := List.exists_cons_of_ne_nil h
  rw [joined,List.intercalate_cons_cons,joined,List.append_assoc]
  rfl

/-- A field stands at its offset. -/
theorem joined_field {fields : List (List α)} {c : ℕ} {f : List α} (h : fields[c]? = some f) :
    ((joined blank fields).drop (offset fields c)).take f.length = f := by
  induction fields generalizing c with
  | nil => contradiction
  | cons g fields ih =>
    cases c with
    | zero =>
      obtain rfl : g = f := Option.some.inj h
      rw [offset,List.take_zero,List.map_nil,List.sum_nil,List.drop_zero]
      by_cases hrest : fields = []
      · rw [hrest,joined,List.intercalate_singleton,List.take_length]
      · rw [joined_cons hrest,List.take_left]
    | succ c =>
      have hne : fields ≠ [] := by
        rintro rfl
        cases h
      rw [joined_cons hne,offset_cons,← List.drop_drop,← List.drop_drop,List.drop_left]
      exact ih h

/-- Every character that belongs to no field is blank. -/
theorem joined_other {fields : List (List α)} {k : ℕ} {x : α}
    (h : (joined blank fields)[k]? = some x) :
    x = blank ∨ ∃ c f, fields[c]? = some f ∧ offset fields c ≤ k ∧
      f[k-offset fields c]? = some x := by
  induction fields generalizing k with
  | nil => cases h
  | cons f fields ih =>
    have hfirst : f[k]? = some x → ∃ c g, (f::fields)[c]? = some g ∧
        offset (f::fields) c ≤ k ∧ g[k-offset (f::fields) c]? = some x := fun hx =>
      ⟨0,f,rfl,Nat.zero_le k,hx⟩
    by_cases hrest : fields = []
    · rw [hrest,joined,List.intercalate_singleton] at h
      exact Or.inr (hfirst h)
    · rw [joined_cons hrest,List.getElem?_append] at h
      split_ifs at h with hk
      · exact Or.inr (hfirst h)
      · rw [List.getElem?_cons] at h
        split_ifs at h with hsep
        · exact Or.inl (Option.some.inj h).symm
        · rcases ih h with hx | ⟨c,g,hc,hle,hx⟩
          · exact Or.inl hx
          · refine Or.inr ⟨c+1,g,hc,?_,?_⟩
            · rw [offset_cons]
              omega
            · rwa [offset_cons,show k-(f.length+1+offset fields c) =
                k-f.length-1-offset fields c by omega]

/-- A line ends with its last field. -/
theorem length_joined {fields : List (List α)} (h : fields ≠ []) :
    (joined blank fields).length+1 = offset fields fields.length := by
  induction fields with
  | nil => exact absurd rfl h
  | cons f fields ih =>
    rw [List.length_cons,offset_cons]
    by_cases hrest : fields = []
    · rw [hrest,joined,List.intercalate_singleton]
      rfl
    · rw [joined_cons hrest,List.length_append,List.length_cons,ih hrest]
      omega

/-- Where a field ends in a line without separators. -/
def fieldEnd (fields : List (List α)) (c : ℕ) : ℕ := (fields.take (c+1)).flatten.length

lemma fieldEnd_succ (f : List α) (fields : List (List α)) (c : ℕ) :
    fieldEnd (f::fields) (c+1) = f.length+fieldEnd fields c := by
  rw [fieldEnd,List.take_succ_cons,List.flatten_cons,List.length_append,fieldEnd]

lemma fieldEnd_zero (f : List α) (fields : List (List α)) :
    fieldEnd (f::fields) 0 = f.length := by simp [fieldEnd]

/-- Two lines have their fields end at the same places exactly if these have the same lengths. -/
theorem fieldEnd_eq_iff {fields fields' : List (List α)} (h : fields.length = fields'.length) :
    (∀ c < fields.length, fieldEnd fields c = fieldEnd fields' c) ↔
      List.Forall₂ (fun f g => f.length = g.length) fields fields' := by
  induction fields generalizing fields' with
  | nil =>
    obtain rfl := List.length_eq_zero_iff.mp h.symm
    simp
  | cons f fields ih =>
    obtain ⟨g,fields',rfl⟩ : ∃ g rest, fields' = g::rest :=
      List.exists_cons_of_length_eq_add_one h.symm
    rw [List.forall₂_cons,← ih (Nat.succ.inj h)]
    constructor
    · intro hends
      have hfirst := hends 0 (Nat.succ_pos _)
      rw [fieldEnd_zero,fieldEnd_zero] at hfirst
      refine ⟨hfirst,fun c hc => ?_⟩
      have hnext := hends (c+1) (Nat.succ_lt_succ hc)
      rw [fieldEnd_succ,fieldEnd_succ] at hnext
      omega
    · rintro ⟨hfirst,hrest⟩ c hc
      cases c with
      | zero => rw [fieldEnd_zero,fieldEnd_zero,hfirst]
      | succ c =>
        rw [fieldEnd_succ,fieldEnd_succ,hfirst,hrest c (Nat.lt_of_succ_lt_succ hc)]

end Lines
end UarchBench.Base
