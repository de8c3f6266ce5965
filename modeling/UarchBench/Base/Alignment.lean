import Mathlib.Data.Nat.Bitwise
import Mathlib.Algebra.Order.Ring.Nat
import Mathlib.Tactic.Ring

/-! Alignment of machine words to powers of two by masking. -/
namespace UarchBench.Base

/-- The usual bit trick for a power of two: nonzero, and no bit in common with its predecessor. -/
def isPow2 {w : ℕ} (x : BitVec w) : Bool := x ≠ 0 && x &&& (x-1) = 0

/-- Round an address up to a multiple of the alignment, which must be a power of two. -/
def alignUp {w : ℕ} (x a : BitVec w) : BitVec w := (x+a-1) &&& -a

lemma nat_and_high_mask {w k x : ℕ} (hk : k < w) (hx : x < 2^w) :
    x &&& (2^w-2^k) = x/2^k*2^k := by
  have hmask : 2^w-2^k = (2^(w-k)-1)*2^k := by
    rw [Nat.sub_mul,← pow_add,Nat.one_mul,Nat.sub_add_cancel hk.le]
  rw [hmask]
  apply Nat.eq_of_testBit_eq
  intro i
  rw [Nat.testBit_and,Nat.testBit_mul_two_pow,Nat.testBit_mul_two_pow,
    Nat.testBit_two_pow_sub_one,Nat.testBit_div_two_pow]
  by_cases hi : k ≤ i
  · by_cases hw : i < w
    · simp [hi,show i-k < w-k by omega]
    · have hlt : x < 2^i := hx.trans_le (Nat.pow_le_pow_right (by omega) (by omega))
      simp [hi,Nat.testBit_lt_two_pow hlt]
  · simp [hi]

lemma toNat_pred {w : ℕ} (hw : 0 < w) (y : BitVec w) : (y-1).toNat = (2^w-1+y.toNat)%2^w := by
  have hone : (1 : BitVec w).toNat = 1 := Nat.mod_eq_of_lt (Nat.one_lt_two_pow hw.ne')
  rw [BitVec.toNat_sub,hone]

theorem isPow2_toNat {w : ℕ} {x : BitVec w} (h : isPow2 x = true) : ∃ k < w, x.toNat = 2^k := by
  simp only [isPow2,ne_eq,Bool.and_eq_true,decide_eq_true_eq] at h
  have hx : x.toNat ≠ 0 := fun h0 => h.1 (BitVec.eq_of_toNat_eq (by simpa using h0))
  have hlt := x.isLt
  have hw : 0 < w := by
    rcases Nat.eq_zero_or_pos w with rfl | hw
    · omega
    · exact hw
  have hpred : (x-1).toNat = x.toNat-1 := by
    rw [toNat_pred hw,show 2^w-1+x.toNat = 2^w+(x.toNat-1) by omega,Nat.add_mod_left,
      Nat.mod_eq_of_lt (by omega)]
  have hand := congrArg BitVec.toNat h.2
  rw [BitVec.toNat_and,hpred] at hand
  obtain ⟨k,hk⟩ := (Nat.and_sub_one_eq_zero_iff_isPowerOfTwo hx).mp (by simpa using hand)
  exact ⟨k,(Nat.pow_lt_pow_iff_right (by omega)).mp (hk ▸ hlt),hk⟩

section PowerOfTwo
variable {w k : ℕ} {a : BitVec w} (hk : k < w) (ha : a.toNat = 2^k)
include hk ha

theorem toNat_and_neg (x : BitVec w) : (x &&& -a).toNat = x.toNat/2^k*2^k := by
  have hneg : (-a).toNat = 2^w-2^k := by
    have hpos : 0 < 2^k := Nat.two_pow_pos k
    have hlt := a.isLt
    rw [BitVec.toNat_neg,ha,Nat.mod_eq_of_lt (by omega)]
  rw [BitVec.toNat_and,hneg]
  exact nat_and_high_mask hk x.isLt

theorem toNat_alignUp_mod (x : BitVec w) : (alignUp x a).toNat%2^k = 0 := by
  rw [alignUp,toNat_and_neg hk ha]
  exact Nat.mul_mod_left _ _

lemma toNat_add_sub_one (x : BitVec w) (h : x.toNat+2^k ≤ 2^w) :
    (x+a-1).toNat = x.toNat+2^k-1 := by
  have hpos : 0 < 2^k := Nat.two_pow_pos k
  rw [toNat_pred (by omega),BitVec.toNat_add,ha,Nat.add_mod_mod,
    show 2^w-1+(x.toNat+2^k) = 2^w+(x.toNat+2^k-1) by omega,Nat.add_mod_left,
    Nat.mod_eq_of_lt (by omega)]

/-- Without wrapping, the aligned address is the next multiple at or above the given one. -/
theorem alignUp_bounds (x : BitVec w) (h : x.toNat+2^k ≤ 2^w) :
    x.toNat ≤ (alignUp x a).toNat ∧ (alignUp x a).toNat < x.toNat+2^k := by
  rw [alignUp,toNat_and_neg hk ha,toNat_add_sub_one hk ha x h]
  have hpos : 0 < 2^k := Nat.two_pow_pos k
  have hdiv := Nat.div_add_mod (x.toNat+2^k-1) (2^k)
  have hmod := Nat.mod_lt (x.toNat+2^k-1) hpos
  rw [Nat.mul_comm] at hdiv
  omega

/-- Past the end of the address space the rounding wraps to the null address. -/
theorem alignUp_wraps (x : BitVec w) (h : 2^w < x.toNat+2^k) : (alignUp x a).toNat = 0 := by
  have hlt := x.isLt
  have hle : 2^k ≤ 2^w := Nat.pow_le_pow_right (by omega) hk.le
  have hsum : (x+a-1).toNat = x.toNat+2^k-1-2^w := by
    rw [toNat_pred (by omega),BitVec.toNat_add,ha,Nat.add_mod_mod,
      show 2^w-1+(x.toNat+2^k) = 2^w+(2^w+(x.toNat+2^k-1-2^w)) by omega,Nat.add_mod_left,
      Nat.add_mod_left,Nat.mod_eq_of_lt (by omega)]
  rw [alignUp,toNat_and_neg hk ha,hsum,Nat.div_eq_of_lt (by omega),Nat.zero_mul]

theorem alignUp_of_aligned (x : BitVec w) (h : x.toNat%2^k = 0) : alignUp x a = x := by
  have hpos : 0 < 2^k := Nat.two_pow_pos k
  obtain ⟨q,hq⟩ := Nat.dvd_of_mod_eq_zero h
  have hw : 2^w = 2^k*2^(w-k) := by rw [← pow_add,Nat.add_sub_cancel' hk.le]
  have hlt := x.isLt
  have hfit : x.toNat+2^k ≤ 2^w := by
    rw [hw,hq] at hlt ⊢
    calc 2^k*q+2^k = 2^k*(q+1) := by ring
      _ ≤ 2^k*2^(w-k) := Nat.mul_le_mul_left _ (Nat.lt_of_mul_lt_mul_left hlt)
  obtain ⟨hle,hup⟩ := alignUp_bounds hk ha x hfit
  obtain ⟨r,hr⟩ := Nat.dvd_of_mod_eq_zero (toNat_alignUp_mod hk ha x)
  rw [hr,hq] at hle
  rw [hr,hq,← Nat.mul_succ] at hup
  have hqr : q = r :=
    le_antisymm (Nat.le_of_mul_le_mul_left hle hpos)
      (Nat.lt_succ_iff.mp (Nat.lt_of_mul_lt_mul_left hup))
  exact BitVec.eq_of_toNat_eq (by rw [hr,hq,hqr])

end PowerOfTwo
end UarchBench.Base
