import UarchBench.Base.DoWhile
import UarchBench.Base.Registers

/-! Loops that count down: after each trip a quantity has dropped by a fixed amount, and the loop
goes on exactly if it was not below that amount before the trip. The instances are the two
machine loops of the kernels, `sub` with `jge` and `dec` with `jnz`. -/
namespace UarchBench.Base

section Measure
variable {σ : Type*} {step : σ → σ} {again : σ → Bool} {inv : σ → Prop} {left : σ → ℕ} {d : ℕ}

lemma iterate_invariant (hinv : ∀ s, inv s → inv (step s)) {s : σ} (hs : inv s) (k : ℕ) :
    inv (step^[k] s) := by
  induction k with
  | zero => exact hs
  | succ k ih =>
    rw [Function.iterate_succ_apply']
    exact hinv _ ih

lemma iterate_left (hinv : ∀ s, inv s → inv (step s))
    (hleft : ∀ s, inv s → d ≤ left s → left (step s) = left s-d) {s : σ} (hs : inv s) (k : ℕ)
    (hk : k*d ≤ left s) : left (step^[k] s) = left s-k*d := by
  induction k with
  | zero => simp
  | succ k ih =>
    rw [Nat.succ_mul] at hk ⊢
    have hprev := ih (by omega)
    rw [Function.iterate_succ_apply',hleft _ (iterate_invariant hinv hs k) (by omega),hprev]
    omega

/-- The countdown rule: the quantity bounds the loop and fixes its number of trips. -/
theorem doWhile_countdown (inv : σ → Prop) (left : σ → ℕ) (hd : 0 < d)
    (hinv : ∀ s, inv s → inv (step s))
    (hleft : ∀ s, inv s → d ≤ left s → left (step s) = left s-d)
    (hagain : ∀ s, inv s → again (step s) = decide (d ≤ left s)) {s : σ} (hs : inv s)
    (fuel : ℕ) (hfuel : left s/d+1 ≤ fuel) :
    doWhile (fun s => some (step s)) again fuel s =
      some (step^[left s/d+1] s,left s/d+1) := by
  have hat : ∀ k, k ≤ left s/d →
      again (step^[k+1] s) = decide ((k+1)*d ≤ left s) := by
    intro k hk
    have hkd := (Nat.le_div_iff_mul_le hd).mp hk
    rw [Function.iterate_succ_apply',hagain _ (iterate_invariant hinv hs k),
      iterate_left hinv hleft hs k hkd,Nat.succ_mul,decide_eq_decide]
    omega
  refine doWhile_iterate step s (left s/d+1) (Nat.succ_pos _) (fun k hk hlt => ?_) ?_ fuel hfuel
  · obtain ⟨k,rfl⟩ : ∃ j, k = j+1 := ⟨k-1,by omega⟩
    rw [hat k (by omega)]
    exact decide_eq_true ((Nat.le_div_iff_mul_le hd).mp (by omega))
  · rw [hat _ le_rfl]
    exact decide_eq_false (not_le.mpr (Nat.lt_mul_of_div_lt (Nat.lt_succ_self _) hd))

end Measure

section Machine
variable {σ : Type*} {w : ℕ} {step : σ → σ} {again : σ → Bool}

/-- The trips of `dec reg; jnz`: a register that starts at zero runs through all its values. -/
def decTrips (x : BitVec w) : ℕ := (x-1).toNat+1

lemma decTrips_of_pos {x : BitVec w} (h : 0 < x.toNat) : decTrips x = x.toNat := by
  have hlt := x.isLt
  rcases Nat.eq_zero_or_pos w with rfl | hw
  · omega
  · have hone : (1 : BitVec w).toNat = 1 := Nat.mod_eq_of_lt (Nat.one_lt_two_pow hw.ne')
    rw [decTrips,BitVec.toNat_sub_of_le (by rw [BitVec.le_def,hone]; exact h),hone]
    omega

/-- The counter of a trip is one only in the last one. -/
lemma last_jnz {x : BitVec w} {k : ℕ} (hk : k < decTrips x) :
    (subFlags (x-BitVec.ofNat w k) 1).jnz = decide (k+1 < decTrips x) := by
  rw [jnz_sub,decide_eq_decide]
  rw [decTrips] at hk ⊢
  have hcomm : x-BitVec.ofNat w k = 1 ↔ x-1 = BitVec.ofNat w k := by
    rw [BitVec.sub_eq_iff_eq_add,BitVec.sub_eq_iff_eq_add,BitVec.add_comm]
  have hone : x-BitVec.ofNat w k = 1 ↔ (x-1).toNat = k := by
    rw [hcomm,← BitVec.toNat_inj,BitVec.toNat_ofNat,Nat.mod_eq_of_lt (by
      have := (x-1).isLt
      omega)]
  rw [ne_eq,hone]
  omega

/-- `dec reg; jnz` at the end of a trip. -/
theorem doWhile_dec (reg : σ → BitVec w) (hw : 0 < w) (hreg : ∀ s, reg (step s) = reg s-1)
    (hagain : ∀ s, again (step s) = (subFlags (reg s) 1).jnz) (s : σ) (fuel : ℕ)
    (hfuel : decTrips (reg s) ≤ fuel) :
    doWhile (fun s => some (step s)) again fuel s =
      some (step^[decTrips (reg s)] s,decTrips (reg s)) := by
  have hone : (1 : BitVec w).toNat = 1 := Nat.mod_eq_of_lt (Nat.one_lt_two_pow hw.ne')
  rw [decTrips,← Nat.div_one (reg s-1).toNat] at hfuel ⊢
  refine doWhile_countdown (fun _ => True) (fun s => (reg s-1).toNat) Nat.one_pos
    (fun _ _ => trivial) (fun s _ hs => ?_) (fun s _ => ?_) trivial fuel hfuel
  · rw [hreg,BitVec.toNat_sub_of_le (by rw [BitVec.le_def,hone]; exact hs),hone]
  · have hzero : (reg s-1).toNat = 0 ↔ reg s = 1 := by
      rw [← BitVec.toNat_zero (w := w),BitVec.toNat_inj,BitVec.sub_eq_iff_eq_add,BitVec.zero_add]
    rw [hagain,jnz_sub,decide_eq_decide,Nat.one_le_iff_ne_zero,ne_eq,ne_eq,hzero]

/-- The trips of `sub reg, d; jge`: one more than fit, and a single one below zero. -/
def subTrips (x d : BitVec w) : ℕ := x.toInt.toNat/d.toInt.toNat+1

lemma toInt_sub_of_le {x d : BitVec w} (hd : 0 ≤ d.toInt) (h : d.toInt ≤ x.toInt) :
    (x-d).toInt = x.toInt-d.toInt := by
  have hx := BitVec.toInt_lt (x := x)
  rw [BitVec.toInt_sub]
  rcases Nat.eq_zero_or_pos w with rfl | hw
  · simp [BitVec.of_length_zero]
  · have hpow : 2^w = 2*2^(w-1) := by rw [← pow_succ',Nat.sub_add_cancel hw]
    exact Int.bmod_eq_of_le (by push_cast [hpow]; omega) (by push_cast [hpow]; omega)

/-- `sub reg, d; jge` at the end of a trip. -/
theorem doWhile_sub (reg : σ → BitVec w) {d : BitVec w} (hd : 0 < d.toInt)
    (hreg : ∀ s, reg (step s) = reg s-d)
    (hagain : ∀ s, again (step s) = (subFlags (reg s) d).jge) (s : σ) (fuel : ℕ)
    (hfuel : subTrips (reg s) d ≤ fuel) :
    doWhile (fun s => some (step s)) again fuel s =
      some (step^[subTrips (reg s) d] s,subTrips (reg s) d) := by
  have hw : 0 < w := Nat.pos_of_ne_zero (by rintro rfl; simp [BitVec.of_length_zero] at hd)
  refine doWhile_countdown (fun _ => True) (fun s => (reg s).toInt.toNat)
    (show 0 < d.toInt.toNat by omega) (fun _ _ => trivial) (fun s _ hs => ?_) (fun s _ => ?_)
    trivial fuel hfuel
  · rw [hreg,toInt_sub_of_le hd.le (by omega)]
    omega
  · rw [hagain,jge_sub hw,decide_eq_decide]
    omega

end Machine
end UarchBench.Base
