import Mathlib.Data.List.Basic
import Mathlib.Data.List.Induction
import Mathlib.Data.List.Infix

/-! Histories of operations that are not all possible in every state, and invariants that an
operation keeps under a condition. -/
namespace UarchBench.Base
variable {σ ο : Type*} (step : σ → ο → Option σ)

/-- The state behind some operations. -/
def ran (s : σ) : List ο → Option σ
  | [] => some s
  | op::ops => (step s op).bind (fun t => ran t ops)

variable {step}

lemma ran_snoc (s : σ) (ops : List ο) (op : ο) :
    ran step s (ops ++ [op]) = (ran step s ops).bind (fun t => step t op) := by
  induction ops generalizing s with
  | nil => simp [ran]
  | cons first ops ih =>
    rw [List.cons_append,ran,ran,Option.bind_assoc]
    exact Option.bind_congr (fun t _ => ih t)

/-- Where the condition of a step is exactly what keeps the invariant, all states of a history have
the invariant exactly if all steps meet the condition. -/
theorem histories_iff {P : σ → Prop} {C : σ → ο → Prop} {start : σ} (hstart : P start)
    (hstep : ∀ s op s', P s → step s op = some s' → (P s' ↔ C s op)) (ops : List ο) :
    (∀ before s, before <+: ops → ran step start before = some s → P s) ↔
      ∀ before op s s', before ++ [op] <+: ops → ran step start before = some s →
        step s op = some s' → C s op := by
  constructor
  · intro h before op s s' hprefix hran hop
    have hs := h before s ((List.prefix_append before [op]).trans hprefix) hran
    exact (hstep s op s' hs hop).mp (h _ s' hprefix (by rw [ran_snoc,hran]; exact hop))
  · intro h before s hprefix hran
    induction before using List.reverseRecOn generalizing s with
    | nil => exact Option.some.inj hran ▸ hstart
    | append_singleton before op ih =>
      rw [ran_snoc] at hran
      obtain ⟨mid,hmid,hop⟩ := Option.bind_eq_some_iff.mp hran
      have hs := ih mid ((List.prefix_append before [op]).trans hprefix) hmid
      exact (hstep mid op s hs hop).mpr (h before op mid s hprefix hmid hop)

end UarchBench.Base
