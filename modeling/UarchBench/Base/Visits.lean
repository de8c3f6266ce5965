import Mathlib.Data.List.Basic

/-! Programs that go from label to label until a state has no next step, and the labels that they
visit. Paths are put together from the paths of their parts. -/
namespace UarchBench.Base
variable {σ α : Type*} (step : σ → Option σ) (label : σ → α)

/-- The labels of a run, once it has ended within the fuel. -/
def visits : ℕ → σ → Option (List α)
  | 0, _ => none
  | fuel+1, s =>
    match step s with
    | none => some []
    | some t => (visits fuel t).map (label s::·)

inductive Path : σ → List α → σ → Prop
  | nil (s) : Path s [] s
  | cons {s t u l} (h : step s = some t) (rest : Path t l u) : Path s (label s::l) u

namespace Path
variable {step label}

theorem append {s t u : σ} {l m : List α} (h : Path step label s l t)
    (h' : Path step label t m u) : Path step label s (l ++ m) u := by
  induction h with
  | nil => exact h'
  | cons hstep _ ih => exact Path.cons hstep (ih h')

lemma single {s t : σ} (h : step s = some t) : Path step label s [label s] t :=
  Path.cons h (Path.nil t)

/-- Parts of a path that visit the same labels. -/
theorem rounds (states : ℕ → σ) (l : List α) (n : ℕ)
    (h : ∀ k < n, Path step label (states k) l (states (k+1))) :
    Path step label (states 0) (List.replicate n l).flatten (states n) := by
  induction n with
  | zero => exact Path.nil _
  | succ n ih =>
    rw [List.replicate_succ',List.flatten_append,List.flatten_singleton]
    exact (ih (fun k hk => h k (by omega))).append (h n n.lt_succ_self)

/-- Parts of a path that keep an invariant. -/
theorem rounds_invariant {I : ℕ → σ → Prop} (l : ℕ → List α) (n : ℕ)
    (h : ∀ k < n, ∀ s, I k s → ∃ t, Path step label s (l k) t ∧ I (k+1) t) {s : σ} (hs : I 0 s) :
    ∃ t, Path step label s ((List.range n).flatMap l) t ∧ I n t := by
  induction n with
  | zero => exact ⟨s,Path.nil s,hs⟩
  | succ n ih =>
    obtain ⟨t,ht,hinv⟩ := ih (fun k hk => h k (by omega))
    obtain ⟨u,hu,hinv'⟩ := h n n.lt_succ_self t hinv
    refine ⟨u,?_,hinv'⟩
    rw [List.range_succ,List.flatMap_append,List.flatMap_singleton]
    exact ht.append hu

/-- One step after the other. -/
theorem steps (states : ℕ → σ) (n : ℕ) (h : ∀ k < n, step (states k) = some (states (k+1))) :
    Path step label (states 0) ((List.range n).map (fun k => label (states k))) (states n) := by
  induction n with
  | zero => exact Path.nil _
  | succ n ih =>
    rw [List.range_succ,List.map_append]
    exact (ih (fun k hk => h k (by omega))).append (single (h n n.lt_succ_self))

/-- A path that ends in a state without a next step is the run. -/
theorem visits_eq {s t : σ} {l : List α} (h : Path step label s l t) (ht : step t = none)
    {fuel : ℕ} (hfuel : l.length < fuel) : visits step label fuel s = some l := by
  induction h generalizing fuel with
  | nil =>
    obtain ⟨fuel,rfl⟩ : ∃ m, fuel = m+1 := ⟨fuel-1,by omega⟩
    rw [visits,ht]
  | cons hstep _ ih =>
    rw [List.length_cons] at hfuel
    obtain ⟨fuel,rfl⟩ : ∃ m, fuel = m+1 := ⟨fuel-1,by omega⟩
    have hrest := @ih ht fuel (by omega)
    simp only [visits,hstep,hrest,Option.map_some]

end Path
end UarchBench.Base
