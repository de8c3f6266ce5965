import Mathlib.Data.List.Basic

/-! The words of a line, with any number of blanks between them. -/
namespace UarchBench.Base
variable {α β : Type*} [DecidableEq α]

def words (blank : α) (s : List α) : List (List α) :=
  (s.splitOnP (· == blank)).filter (fun w => !w.isEmpty)

/-- A word with some blanks in front of it. -/
structure Padded (blank : α) (s w : List α) : Prop where
  eq_append : ∃ k, s = List.replicate k blank ++ w
  not_mem : blank ∉ w
  ne_nil : w ≠ []

/-- The text ends here or goes on with a blank. -/
def Breaks (blank : α) (s : List α) : Prop := s = [] ∨ ∃ t, s = blank::t

section Words
variable {blank : α}

lemma words_nil : words blank [] = [] := rfl

lemma words_blank (s : List α) : words blank (blank::s) = words blank s := by
  rw [words,List.splitOnP_cons_eq_if_modifyHead,if_pos (beq_self_eq_true blank)]
  rfl

lemma words_blanks (k : ℕ) (s : List α) :
    words blank (List.replicate k blank ++ s) = words blank s := by
  induction k with
  | zero => rfl
  | succ k ih => rw [List.replicate_succ,List.cons_append,words_blank,ih]

lemma words_append {w s : List α} (hw : blank ∉ w) (hne : w ≠ []) (hs : Breaks blank s) :
    words blank (w ++ s) = w::words blank s := by
  have hsep : ∀ x ∈ w, (x == blank) = false := fun x hx =>
    beq_false_of_ne (fun heq => hw (heq ▸ hx))
  have hkeep : ∀ ws : List (List α), (w::ws).filter (fun w => !w.isEmpty) =
      w::ws.filter (fun w => !w.isEmpty) := fun ws => by
    rw [List.filter_cons,if_pos (by simpa using hne)]
  rcases hs with rfl | ⟨t,rfl⟩
  · rw [List.append_nil,words,List.splitOnP_eq_singleton hsep,hkeep]
    rfl
  · rw [words_blank,words,List.splitOnP_append_cons_of_forall_mem hsep _ (beq_self_eq_true blank),
      hkeep,words]

theorem words_padded {s w rest : List α} (h : Padded blank s w) (hrest : Breaks blank rest) :
    words blank (s ++ rest) = w::words blank rest := by
  obtain ⟨⟨k,rfl⟩,hw,hne⟩ := h
  rw [List.append_assoc,words_blanks,words_append hw hne hrest]

omit [DecidableEq α] in
lemma Breaks.append {s : List α} (hs : Breaks blank s) {t : List α} (ht : Breaks blank t) :
    Breaks blank (s ++ t) := by
  rcases hs with rfl | ⟨s,rfl⟩
  · exact ht
  · exact Or.inr ⟨s ++ t,rfl⟩

/-- Words with blanks in front of each. -/
theorem words_leading {f g : β → List α} {l : List β}
    (h : ∀ b ∈ l, Padded blank (f b) (g b) ∧ Breaks blank (f b)) {rest : List α}
    (hrest : Breaks blank rest) :
    words blank (l.flatMap f ++ rest) = l.map g ++ words blank rest ∧
      Breaks blank (l.flatMap f ++ rest) := by
  induction l with
  | nil => exact ⟨rfl,hrest⟩
  | cons b l ih =>
    obtain ⟨⟨hb,hbreaks⟩,hl⟩ := List.forall_mem_cons.mp h
    obtain ⟨hwords,htail⟩ := ih hl
    rw [List.flatMap_cons,List.append_assoc]
    exact ⟨by rw [words_padded hb htail,hwords]; rfl,hbreaks.append htail⟩

/-- Words with a blank behind each. -/
theorem words_trailing {f g : β → List α} {l : List β} (h : ∀ b ∈ l, Padded blank (f b) (g b))
    (rest : List α) :
    words blank (l.flatMap (fun b => f b ++ [blank]) ++ rest) = l.map g ++ words blank rest := by
  induction l with
  | nil => rfl
  | cons b l ih =>
    obtain ⟨hb,hl⟩ := List.forall_mem_cons.mp h
    rw [List.flatMap_cons,List.append_assoc,List.append_assoc,List.singleton_append,
      words_padded hb (Or.inr ⟨_,rfl⟩),words_blank,ih hl]
    rfl

end Words
end UarchBench.Base
