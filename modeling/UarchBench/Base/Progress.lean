import Mathlib.Data.List.Basic

/-! What a computation has done when it ends or an exception stops it. -/
namespace UarchBench.Base

/-- A sequence has a result exactly if its parts have. -/
theorem bind_eq_ok {ε α β : Type} {x : Except ε α} {f : α → Except ε β} {r : β} :
    (x >>= f) = .ok r ↔ ∃ a, x = .ok a ∧ f a = .ok r := by
  cases x <;> simp [bind,Except.bind]

structure Progress (ε α : Type) where
  done : List α
  thrown : Option ε
  deriving DecidableEq, Repr

namespace Progress
variable {ε α β : Type}

def nothing : Progress ε α := ⟨[],none⟩
def just (items : List α) : Progress ε α := ⟨items,none⟩
def throw (e : ε) : Progress ε α := ⟨[],some e⟩

def andThen (p q : Progress ε α) : Progress ε α :=
  match p.thrown with
  | some e => ⟨p.done,some e⟩
  | none => ⟨p.done ++ q.done,q.thrown⟩

/-- A conditional whose condition may throw. -/
def guarded (condition : Except ε Bool) (p : Progress ε α) : Progress ε α :=
  match condition with
  | .error e => throw e
  | .ok true => p
  | .ok false => nothing

def forEach (body : β → Progress ε α) : List β → Progress ε α
  | [] => nothing
  | x::xs => (body x).andThen (forEach body xs)

@[simp] lemma andThen_nothing (p : Progress ε α) : p.andThen nothing = p := by
  obtain ⟨done,thrown⟩ := p
  cases thrown with
  | none => simp [andThen,nothing]
  | some e => rfl

lemma andThen_assoc (p q r : Progress ε α) :
    (p.andThen q).andThen r = p.andThen (q.andThen r) := by
  obtain ⟨pdone,pthrown⟩ := p
  obtain ⟨qdone,qthrown⟩ := q
  cases pthrown with
  | some e => rfl
  | none =>
    cases qthrown with
    | some e => rfl
    | none => simp [andThen]

lemma andThen_of_not_thrown {p : Progress ε α} (h : p.thrown = none) (q : Progress ε α) :
    p.andThen q = ⟨p.done ++ q.done,q.thrown⟩ := by rw [andThen,h]

lemma andThen_of_thrown {p : Progress ε α} {e : ε} (h : p.thrown = some e) (q : Progress ε α) :
    p.andThen q = ⟨p.done,some e⟩ := by rw [andThen,h]

lemma forEach_append (body : β → Progress ε α) (xs ys : List β) :
    forEach body (xs ++ ys) = (forEach body xs).andThen (forEach body ys) := by
  induction xs with
  | nil => rfl
  | cons x xs ih =>
    change (body x).andThen (forEach body (xs ++ ys)) = _
    rw [ih,← andThen_assoc]
    rfl

lemma mem_andThen_done {p q : Progress ε α} {a : α} (h : a ∈ (p.andThen q).done) :
    a ∈ p.done ∨ a ∈ q.done := by
  obtain ⟨done,thrown⟩ := p
  cases thrown with
  | some e => exact Or.inl h
  | none => exact List.mem_append.mp h

lemma mem_forEach_done {body : β → Progress ε α} {xs : List β} {a : α}
    (h : a ∈ (forEach body xs).done) : ∃ x ∈ xs, a ∈ (body x).done := by
  induction xs with
  | nil => exact absurd h List.not_mem_nil
  | cons x xs ih =>
    rcases mem_andThen_done h with h | h
    · exact ⟨x,List.mem_cons_self,h⟩
    · obtain ⟨y,hy,hmem⟩ := ih h
      exact ⟨y,List.mem_cons_of_mem x hy,hmem⟩

/-- Nested loops are one loop. -/
lemma forEach_forEach {γ : Type} (body : β → Progress ε α) (f : γ → List β) (xs : List γ) :
    forEach (fun x => forEach body (f x)) xs = forEach body (xs.flatMap f) := by
  induction xs with
  | nil => rfl
  | cons x xs ih =>
    rw [List.flatMap_cons,forEach_append,← ih]
    rfl

lemma forEach_map {γ : Type} (body : β → Progress ε α) (f : γ → β) (xs : List γ) :
    forEach body (xs.map f) = forEach (fun x => body (f x)) xs := by
  induction xs with
  | nil => rfl
  | cons x xs ih => rw [List.map_cons,forEach,forEach,ih]

lemma forEach_congr {f g : β → Progress ε α} {xs : List β} (h : ∀ x ∈ xs, f x = g x) :
    forEach f xs = forEach g xs := by
  induction xs with
  | nil => rfl
  | cons x xs ih =>
    rw [forEach,forEach,h x List.mem_cons_self,ih (fun y hy => h y (List.mem_cons_of_mem x hy))]

/-- A loop whose body never throws. -/
lemma forEach_done {body : β → Progress ε α} {xs : List β} (h : ∀ x ∈ xs, (body x).thrown = none) :
    forEach body xs = just (xs.flatMap (fun x => (body x).done)) := by
  induction xs with
  | nil => rfl
  | cons x xs ih =>
    rw [forEach,andThen_of_not_thrown (h x List.mem_cons_self),
      ih (fun y hy => h y (List.mem_cons_of_mem x hy)),List.flatMap_cons]
    rfl

/-- A loop that reaches an element at which the body throws. -/
lemma forEach_thrown {body : β → Progress ε α} {before : List β} {x : β} {e : ε}
    (h : ∀ y ∈ before, (body y).thrown = none) (hx : (body x).thrown = some e) (after : List β) :
    forEach body (before ++ x::after) =
      ⟨before.flatMap (fun y => (body y).done) ++ (body x).done,some e⟩ := by
  rw [forEach_append,forEach_done h,forEach,andThen_of_thrown hx]
  rfl

/-- Either no element throws or a first one does. -/
lemma first_thrown (body : β → Progress ε α) (xs : List β) :
    (∀ x ∈ xs, (body x).thrown = none) ∨
    ∃ before x after e, xs = before ++ x::after ∧ (∀ y ∈ before, (body y).thrown = none) ∧
      (body x).thrown = some e := by
  induction xs with
  | nil => exact Or.inl (fun x hx => absurd hx List.not_mem_nil)
  | cons x xs ih =>
    cases hx : (body x).thrown with
    | some e =>
      exact Or.inr ⟨[],x,xs,e,rfl,fun y hy => absurd hy List.not_mem_nil,hx⟩
    | none =>
      rcases ih with h | ⟨before,y,after,e,rfl,hbefore,hy⟩
      · exact Or.inl (List.forall_mem_cons.mpr ⟨hx,h⟩)
      · exact Or.inr ⟨x::before,y,after,e,rfl,List.forall_mem_cons.mpr ⟨hx,hbefore⟩,hy⟩

end Progress
end UarchBench.Base
