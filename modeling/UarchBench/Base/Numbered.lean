import Mathlib.Data.List.Basic
import Mathlib.Tactic.SplitIfs

/-! Loops over a list with a running index: updates of the entry at the index, and a choice among
the elements that leaves the index in step. -/
namespace UarchBench.Base
variable {α β : Type*}

lemma modify_append (g : α → α) (before after : List α) (x : α) :
    (before ++ x::after).modify before.length g = before ++ g x::after := by
  induction before with
  | nil => rfl
  | cons y before ih => rw [List.cons_append,List.length_cons,List.modify_succ_cons,ih]; rfl

/-- An addition at every position in turn. -/
lemma foldl_modify (g : α → ℕ) (defs : List α) (k : ℕ) (before totals : List ℕ)
    (hk : before.length = k) (hlen : totals.length = defs.length) :
    (defs.zipIdx k).foldl (fun t f => t.modify f.2 (·+g f.1)) (before ++ totals) =
      before ++ totals.zipWith (fun n f => n+g f) defs := by
  induction defs generalizing k before totals with
  | nil =>
    obtain rfl := List.length_eq_zero_iff.mp hlen
    rfl
  | cons f defs ih =>
    obtain ⟨n,totals,rfl⟩ := List.exists_cons_of_length_eq_add_one hlen
    have hfirst : (before ++ n::totals).modify k (·+g f) = (before ++ [n+g f]) ++ totals := by
      rw [← hk,modify_append,List.append_assoc]
      rfl
    rw [List.zipIdx_cons,List.foldl_cons,hfirst,
      ih (k+1) _ totals (by simp [hk]) (Nat.succ.inj hlen),List.append_assoc]
    rfl

/-- A choice of some elements. -/
lemma flatMap_if (p : α → Bool) (g : α → β) (l : List α) :
    l.flatMap (fun x => if p x then [g x] else []) = (l.filter p).map g := by
  induction l with
  | nil => rfl
  | cons x l ih =>
    rw [List.flatMap_cons,ih,List.filter_cons]
    split_ifs <;> rfl

/-- A choice among numbered elements, of which only the element matters. -/
lemma flatMap_zipIdx_if (p : α → Bool) {G : α × ℕ → β} {g : α → β} {l : List α}
    (h : ∀ i x, l[i]? = some x → G (x,i) = g x) :
    l.zipIdx.flatMap (fun x => if p x.1 then [G x] else []) = (l.filter p).map g := by
  have hG : ∀ x ∈ l.zipIdx, G x = g x.1 := fun x hx =>
    h x.2 x.1 (List.mem_zipIdx_iff_getElem?.mp hx)
  have hfst : (l.zipIdx.filter (fun x => p x.1)).map Prod.fst = l.filter p := by
    conv_rhs => rw [← List.zipIdx_map_fst 0 l,List.filter_map]
    rfl
  rw [flatMap_if (fun x => p x.1) G,← hfst,List.map_map]
  exact List.map_congr_left (fun x hx => hG x (List.mem_of_mem_filter hx))

end UarchBench.Base
