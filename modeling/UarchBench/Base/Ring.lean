import Mathlib.Data.List.Rotate
import UarchBench.Base.DoWhile

/-! Successor maps that close a list into one cycle: every orbit is a rotation of the list,
and the do-while walk around the cycle makes exactly one trip per element. -/
namespace UarchBench.Base

/-- Each element of the ring is sent to the following one, and the last one to the first. -/
def IsRing {α : Type*} (succ : α → α) (ring : List α) : Prop :=
  ∀ (k : ℕ) (hk : k < ring.length) (hnext : (k+1)%ring.length < ring.length),
    succ ring[k] = ring[(k+1)%ring.length]

namespace IsRing
variable {α : Type*} {succ : α → α} {ring : List α}

theorem iterate (h : IsRing succ ring) (k j : ℕ) (hk : k < ring.length)
    (hkj : (k+j)%ring.length < ring.length) : succ^[j] ring[k] = ring[(k+j)%ring.length] := by
  induction j with
  | zero => simp [Nat.mod_eq_of_lt hk]
  | succ j ih =>
    have hmod : ∀ i, i%ring.length < ring.length := fun i => Nat.mod_lt i (by omega)
    rw [Function.iterate_succ_apply',ih (hmod _),h _ (hmod _) (hmod _)]
    congr 1
    rw [Nat.mod_add_mod,Nat.add_assoc]

/-- After as many steps as there are elements the walk is back where it began. -/
theorem iterate_length (h : IsRing succ ring) (k : ℕ) (hk : k < ring.length) :
    succ^[ring.length] ring[k] = ring[k] := by
  rw [h.iterate k _ hk (Nat.mod_lt _ (by omega))]
  congr 1
  rw [Nat.add_mod_right,Nat.mod_eq_of_lt hk]

/-- The orbit of an element lists the ring, rotated to begin at that element. -/
theorem orbit_eq_rotate (h : IsRing succ ring) (k : ℕ) (hk : k < ring.length) :
    (List.range ring.length).map (fun j => succ^[j] ring[k]) = ring.rotate k := by
  apply List.ext_getElem
  · simp
  · intro j hj hj'
    rw [List.getElem_map,List.getElem_range,h.iterate k j hk (Nat.mod_lt _ (by omega)),
      List.getElem_rotate]
    congr 1
    rw [Nat.add_comm]

/-- The walk visits every element of the ring once before it returns. -/
theorem orbit_perm (h : IsRing succ ring) (k : ℕ) (hk : k < ring.length) :
    ((List.range ring.length).map (fun j => succ^[j] ring[k])).Perm ring := by
  rw [h.orbit_eq_rotate k hk]
  exact List.rotate_perm ring k

/-- Without repetitions, no proper part of a turn comes back to its start. -/
theorem iterate_ne (h : IsRing succ ring) (hnodup : ring.Nodup) (k j : ℕ)
    (hk : k < ring.length) (hj : 0 < j) (hlt : j < ring.length) :
    succ^[j] ring[k] ≠ ring[k] := by
  rw [h.iterate k j hk (Nat.mod_lt _ (by omega))]
  intro he
  have hi := (hnodup.getElem_inj_iff).mp he
  by_cases hw : k+j < ring.length
  · rw [Nat.mod_eq_of_lt hw] at hi
    omega
  · rw [Nat.mod_eq_sub_mod (by omega),Nat.mod_eq_of_lt (by omega)] at hi
    omega

/-- A do-while walk that follows the ring until it meets its start again makes one trip per
element, whatever else its state accumulates on the way. -/
theorem doWhile_turn {σ : Type*} (h : IsRing succ ring) (hnodup : ring.Nodup) (k : ℕ)
    (hk : k < ring.length) (position : σ → α) (body : σ → σ)
    (hbody : ∀ s, position (body s) = succ (position s)) (again : σ → Bool)
    (hagain : ∀ s, again s = true ↔ position s ≠ ring[k]) (s : σ)
    (hs : position s = ring[k]) (fuel : ℕ) (hfuel : ring.length ≤ fuel) :
    doWhile (fun s => some (body s)) again fuel s =
      some (body^[ring.length] s,ring.length) := by
  have hpos : ∀ j, position (body^[j] s) = succ^[j] ring[k] := by
    intro j
    induction j with
    | zero => exact hs
    | succ j ih => rw [Function.iterate_succ_apply',Function.iterate_succ_apply',hbody,ih]
  apply doWhile_iterate body s ring.length (by omega) _ _ fuel hfuel
  · intro j hj hlt
    rw [hagain,hpos]
    exact h.iterate_ne hnodup k j hk hj hlt
  · rw [Bool.eq_false_iff,Ne,hagain,hpos,not_not]
    exact h.iterate_length k hk

end IsRing
end UarchBench.Base
