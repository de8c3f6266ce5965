import Mathlib.Data.List.Induction

/-! Lists of fallible steps: a search that ends at the first element that holds, and maps and
folds that end at the first failure. -/
namespace UarchBench.Base

lemma error_no_result {ε α : Type} (e : ε) : ¬ ∃ b, (Except.error e : Except ε α) = .ok b := by
  rintro ⟨b,hb⟩
  cases hb

lemma result_no_error {ε α : Type} (b : α) : ¬ ∃ e, (Except.ok b : Except ε α) = .error e := by
  rintro ⟨e,he⟩
  cases he

section AnyM
variable {ε α : Type} {f : α → Except ε Bool}

theorem anyM_cons_ok {x : α} {l : List α} {b : Bool} (h : (x::l).anyM f = .ok b) :
    (f x = .ok true ∧ b = true) ∨ (f x = .ok false ∧ l.anyM f = .ok b) := by
  rw [List.anyM] at h
  cases hx : f x with
  | error e =>
    rw [hx] at h
    cases h
  | ok c =>
    rw [hx] at h
    cases c with
    | true =>
      cases h
      exact Or.inl ⟨rfl,rfl⟩
    | false => exact Or.inr ⟨rfl,h⟩

theorem anyM_true {l : List α} (h : l.anyM f = .ok true) : ∃ x ∈ l, f x = .ok true := by
  induction l with
  | nil => cases h
  | cons x l ih =>
    rcases anyM_cons_ok h with ⟨hx,-⟩ | ⟨-,hl⟩
    · exact ⟨x,List.mem_cons_self,hx⟩
    · obtain ⟨y,hy,hfy⟩ := ih hl
      exact ⟨y,List.mem_cons_of_mem x hy,hfy⟩

theorem anyM_false {l : List α} (h : l.anyM f = .ok false) : ∀ x ∈ l, f x = .ok false := by
  induction l with
  | nil => exact fun x hx => absurd hx List.not_mem_nil
  | cons x l ih =>
    rcases anyM_cons_ok h with ⟨-,hb⟩ | ⟨hx,hl⟩
    · contradiction
    · exact List.forall_mem_cons.mpr ⟨hx,ih hl⟩

/-- An element that throws stands behind a head that does not. -/
lemma split_of_ok {z x : α} {l before after : List α} {c : Bool} (hz : f z = .ok c)
    (hl : z::l = before ++ x::after) (hx : ∃ e, f x = .error e) :
    ∃ rest, before = z::rest ∧ l = rest ++ x::after := by
  cases before with
  | nil =>
    rw [← (List.cons.inj hl).1,hz] at hx
    exact absurd hx (result_no_error c)
  | cons y rest => exact ⟨rest,by rw [(List.cons.inj hl).1],(List.cons.inj hl).2⟩

/-- The scan gives a result if an element that holds stands before every one that throws. -/
theorem anyM_returns_iff (l : List α) : (∃ b, l.anyM f = .ok b) ↔
    ∀ before x after, l = before ++ x::after → (∃ e, f x = .error e) →
      ∃ y ∈ before, f y = .ok true := by
  induction l with
  | nil =>
    refine iff_of_true ⟨false,rfl⟩ (fun before x after hl _ => ?_)
    exact absurd hl.symm (List.append_ne_nil_of_right_ne_nil _ (List.cons_ne_nil _ _))
  | cons z l ih =>
    rw [List.anyM]
    cases hz : f z with
    | error e =>
      refine iff_of_false (error_no_result e) (fun h => ?_)
      obtain ⟨y,hy,-⟩ := h [] z l rfl ⟨e,hz⟩
      exact List.not_mem_nil hy
    | ok c =>
      cases c with
      | true =>
        refine iff_of_true ⟨true,rfl⟩ (fun before x after hl hx => ?_)
        obtain ⟨rest,rfl,-⟩ := split_of_ok hz hl hx
        exact ⟨z,List.mem_cons_self,hz⟩
      | false =>
        change (∃ b, l.anyM f = .ok b) ↔ _
        rw [ih]
        constructor
        · intro h before x after hl hx
          obtain ⟨rest,rfl,hrest⟩ := split_of_ok hz hl hx
          obtain ⟨w,hw,hfw⟩ := h rest x after hrest hx
          exact ⟨w,List.mem_cons_of_mem z hw,hfw⟩
        · intro h before x after hl hx
          obtain ⟨w,hw,hfw⟩ := h (z::before) x after (congrArg (z::·) hl) hx
          rcases List.mem_cons.mp hw with rfl | hw
          · rw [hz] at hfw
            cases hfw
          · exact ⟨w,hw,hfw⟩

end AnyM

section MapM
variable {ε α β : Type}

theorem mapM_ok {f : α → Except ε β} {g : α → β} {xs : List α}
    (h : ∀ x ∈ xs, f x = .ok (g x)) : xs.mapM f = .ok (xs.map g) := by
  induction xs with
  | nil => rfl
  | cons x xs ih =>
    rw [List.mapM_cons,h x List.mem_cons_self,ih (fun y hy => h y (List.mem_cons_of_mem _ hy))]
    rfl

theorem mapM_error {f : α → Except ε β} {xs : List α}
    (h : ∃ x ∈ xs, ∃ e, f x = .error e) : ∃ e, xs.mapM f = .error e := by
  induction xs with
  | nil => simp at h
  | cons x xs ih =>
    rw [List.mapM_cons]
    cases hx : f x with
    | error e => exact ⟨e,rfl⟩
    | ok y =>
      obtain ⟨z,hz,e,he⟩ := h
      rcases List.mem_cons.mp hz with rfl | hz
      · rw [hx] at he
        contradiction
      · obtain ⟨e',he'⟩ := ih ⟨z,hz,e,he⟩
        rw [he']
        exact ⟨e',rfl⟩

end MapM

section FoldlM
variable {ε α β : Type}

/-- Steps that agree on the elements of the list. -/
theorem foldlM_congr {f g : β → α → Except ε β} {xs : List α} (h : ∀ x ∈ xs, ∀ s, f s x = g s x)
    (s : β) : xs.foldlM f s = xs.foldlM g s := by
  induction xs generalizing s with
  | nil => rfl
  | cons x xs ih =>
    obtain ⟨hx,hxs⟩ := List.forall_mem_cons.mp h
    rw [List.foldlM_cons,List.foldlM_cons,hx]
    exact congrArg (g s x >>= ·) (funext (ih hxs))

theorem foldlM_ok {f : β → α → Except ε β} {g : β → α → β} {xs : List α}
    (h : ∀ x ∈ xs, ∀ s, f s x = .ok (g s x)) (s : β) : xs.foldlM f s = .ok (xs.foldl g s) := by
  induction xs generalizing s with
  | nil => rfl
  | cons x xs ih =>
    rw [List.foldlM_cons,h x List.mem_cons_self]
    exact ih (fun y hy => h y (List.mem_cons_of_mem x hy)) (g s x)

/-- A step that fails in every state makes the whole fold fail. -/
theorem foldlM_error {f : β → α → Except ε β} {xs : List α}
    (h : ∃ x ∈ xs, ∀ s, ∃ e, f s x = .error e) (s : β) : ∃ e, xs.foldlM f s = .error e := by
  induction xs generalizing s with
  | nil => simp at h
  | cons x xs ih =>
    rw [List.foldlM_cons]
    cases hx : f s x with
    | error e => exact ⟨e,rfl⟩
    | ok s' =>
      obtain ⟨y,hy,herror⟩ := h
      rcases List.mem_cons.mp hy with rfl | hy
      · obtain ⟨e,he⟩ := herror s
        rw [hx] at he
        cases he
      · exact ih ⟨y,hy,herror⟩ s'

/-- A fold over the positions of a list whose step succeeds with the element there. -/
theorem foldlM_range {α β : Type} {f : β → ℕ → Except ε β} {g : β → α → β} {xs : List α}
    (h : ∀ k x, xs[k]? = some x → ∀ s, f s k = .ok (g s x)) (s : β) :
    (List.range xs.length).foldlM f s = .ok (xs.foldl g s) := by
  induction xs using List.reverseRecOn with
  | nil => rfl
  | append_singleton xs x ih =>
    have hprev : (List.range xs.length).foldlM f s = .ok (xs.foldl g s) := by
      refine ih (fun k y hy t => h k y ?_ t)
      rw [List.getElem?_append_left (List.getElem?_eq_some_iff.mp hy).1,hy]
    have hlast : (xs ++ [x])[xs.length]? = some x := List.getElem?_concat_length
    rw [List.length_append,List.length_singleton,List.range_succ,List.foldlM_append,hprev,
      List.foldl_append]
    change [xs.length].foldlM f (xs.foldl g s) = _
    rw [List.foldlM_cons,h _ x hlast]
    rfl

/-- One position more. -/
theorem foldlM_range_succ {f : β → ℕ → Except ε β} (n : ℕ) (s : β) :
    (List.range (n+1)).foldlM f s = (List.range n).foldlM f s >>= fun t => f t n := by
  rw [List.range_succ,List.foldlM_append]
  simp only [List.foldlM_cons,List.foldlM_nil,bind_pure]

end FoldlM
end UarchBench.Base
