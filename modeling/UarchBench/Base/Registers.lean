import Mathlib.Data.Nat.Init
import Mathlib.Algebra.Order.Ring.Nat

/-! Machine words with the condition flags that a subtraction sets, and the branches on them. -/
namespace UarchBench.Base

/-- The flags read by the conditional branches below. -/
structure Flags where
  zero : Bool
  sign : Bool
  overflow : Bool
  deriving DecidableEq, Repr

/-- The flags after `sub a, b`. -/
def subFlags {w : ℕ} (a b : BitVec w) : Flags :=
  ⟨a-b = 0,(a-b).msb,a.msb != b.msb && (a-b).msb != a.msb⟩

namespace Flags

/-- `jnz`: taken when the result was not zero. -/
def jnz (f : Flags) : Bool := !f.zero

/-- `jge`: taken when the sign flag equals the overflow flag. -/
def jge (f : Flags) : Bool := f.sign == f.overflow

/-- `jle`: taken when the result was zero or the sign flag differs from the overflow flag. -/
def jle (f : Flags) : Bool := f.zero || f.sign != f.overflow

end Flags

theorem jnz_sub {w : ℕ} (a b : BitVec w) : (subFlags a b).jnz = decide (a ≠ b) := by
  rw [Bool.eq_iff_iff]
  simp [subFlags,Flags.jnz,BitVec.sub_eq_iff_eq_add]

/-- The branch after a subtraction compares its operands as signed numbers, also when the
subtraction overflows. -/
theorem jge_sub {w : ℕ} (hw : 0 < w) (a b : BitVec w) :
    (subFlags a b).jge = decide (b.toInt ≤ a.toInt) := by
  obtain ⟨w,rfl⟩ : ∃ v, w = v+1 := ⟨w-1,by omega⟩
  have ha := a.isLt
  have hb := b.isLt
  have hpow : 2^(w+1) = 2*2^w := pow_succ' 2 w
  have hsub : (a-b).toNat =
      if b.toNat ≤ a.toNat then a.toNat-b.toNat else 2^(w+1)+a.toNat-b.toNat := by
    rw [BitVec.toNat_sub]
    split_ifs with hle
    · rw [show 2^(w+1)-b.toNat+a.toNat = 2^(w+1)+(a.toNat-b.toNat) by omega,Nat.add_mod_left,
        Nat.mod_eq_of_lt (by omega)]
    · rw [Nat.mod_eq_of_lt (by omega)]
      omega
  have hmsb : ∀ x : BitVec (w+1), x.msb = decide (2^w ≤ x.toNat) := fun x => by
    rw [BitVec.msb_eq_decide,Nat.add_sub_cancel]
  rw [Bool.eq_iff_iff,decide_eq_true_iff]
  simp only [subFlags,Flags.jge,hmsb,hsub,BitVec.toInt_eq_toNat_cond,beq_iff_eq]
  rw [Bool.eq_iff_iff]
  simp only [Bool.and_eq_true,bne_iff_ne,ne_eq,decide_eq_true_eq,decide_eq_decide]
  split_ifs <;> omega

theorem jle_sub {w : ℕ} (hw : 0 < w) (a b : BitVec w) :
    (subFlags a b).jle = decide (a.toInt ≤ b.toInt) := by
  have hnot : (subFlags a b).jle = ((subFlags a b).zero || !(subFlags a b).jge) := rfl
  have hzero : (subFlags a b).zero = decide (a = b) := by
    have hjnz := jnz_sub a b
    rw [Flags.jnz,decide_not] at hjnz
    exact Bool.not_inj hjnz
  rw [hnot,hzero,jge_sub hw,Bool.eq_iff_iff]
  simp only [Bool.or_eq_true,Bool.not_eq_true',decide_eq_true_eq,decide_eq_false_iff_not,not_le]
  rw [← BitVec.toInt_inj]
  omega

end UarchBench.Base
