import Mathlib.Data.Nat.Init
import Mathlib.Tactic.SplitIfs

/-! Loops in which a trip either ends with a result or goes on, and loops with a condition in
front. The total rules: a trip keeps an invariant and lowers a measure, which bounds the fuel. -/
namespace UarchBench.Base
variable {σ ρ : Type}

/-- There is no result when the fuel runs out first or a trip has none. -/
def loop (body : σ → Option (σ ⊕ ρ)) : ℕ → σ → Option ρ
  | 0, _ => none
  | fuel+1, s =>
    match body s with
    | none => none
    | some (.inl t) => loop body fuel t
    | some (.inr r) => some r

theorem loop_rule {body : σ → Option (σ ⊕ ρ)} (inv : σ → Prop) (left : σ → ℕ) (post : ρ → Prop)
    (hbody : ∀ s, inv s → (∃ t, body s = some (.inl t) ∧ inv t ∧ left t < left s) ∨
      ∃ r, body s = some (.inr r) ∧ post r)
    {s : σ} (hs : inv s) {fuel : ℕ} (hfuel : left s < fuel) :
    ∃ r, loop body fuel s = some r ∧ post r := by
  induction fuel generalizing s with
  | zero => omega
  | succ fuel ih =>
    rcases hbody s hs with ⟨t,ht,hinv,hlt⟩ | ⟨r,hr,hpost⟩
    · obtain ⟨r,hr,hpost⟩ := ih hinv (by omega)
      exact ⟨r,by rw [loop,ht]; exact hr,hpost⟩
    · exact ⟨r,by rw [loop,hr],hpost⟩

/-- `while cond do body`. -/
def whileLoop (cond : σ → Bool) (body : σ → σ) (fuel : ℕ) (s : σ) : Option σ :=
  loop (fun s => some (if cond s then .inl (body s) else .inr s)) fuel s

theorem whileLoop_rule {cond : σ → Bool} {body : σ → σ} (inv : σ → Prop) (left : σ → ℕ)
    (hbody : ∀ s, inv s → cond s = true → inv (body s) ∧ left (body s) < left s)
    {s : σ} (hs : inv s) {fuel : ℕ} (hfuel : left s < fuel) :
    ∃ t, whileLoop cond body fuel s = some t ∧ inv t ∧ cond t = false := by
  refine loop_rule inv left (fun t => inv t ∧ cond t = false) (fun s hs => ?_) hs hfuel
  cases hcond : cond s with
  | true =>
    obtain ⟨hinv,hlt⟩ := hbody s hs hcond
    exact Or.inl ⟨body s,rfl,hinv,hlt⟩
  | false => exact Or.inr ⟨s,rfl,hs,hcond⟩

/-- The state after some trips of `while cond do body`, or the last one if there are fewer. -/
def afterTrips (cond : σ → Bool) (body : σ → σ) : ℕ → σ → σ
  | 0, s => s
  | trips+1, s => if cond s then afterTrips cond body trips (body s) else s

/-- What every trip keeps holds for loops that do not end, too. -/
theorem afterTrips_rule {cond : σ → Bool} {body : σ → σ} (inv : σ → Prop)
    (hbody : ∀ s, inv s → cond s = true → inv (body s)) {s : σ} (hs : inv s) (trips : ℕ) :
    inv (afterTrips cond body trips s) := by
  induction trips generalizing s with
  | zero => exact hs
  | succ trips ih =>
    rw [afterTrips]
    split_ifs with hcond
    · exact ih (hbody s hs hcond)
    · exact hs

/-- A trip adds the next one of a sequence to a trace that has all the earlier ones. -/
lemma mem_trace_succ {α : Type} {f : ℕ → α} {trace trip : List α} {k : ℕ}
    (htrace : ∀ j < k, f j ∈ trace) (htrip : f k ∈ trip) : ∀ j < k+1, f j ∈ trace ++ trip := by
  intro j hj
  rcases Nat.lt_succ_iff_lt_or_eq.mp hj with hj | rfl
  · exact List.mem_append_left _ (htrace j hj)
  · exact List.mem_append_right _ htrip

end UarchBench.Base
