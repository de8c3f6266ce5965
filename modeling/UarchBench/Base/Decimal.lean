import UarchBench.Base.Double
import UarchBench.Base.Words

/-! Numbers in decimal notation with a fixed number of places, rounded to the nearest one. -/
namespace UarchBench.Base

/-- The digits of a number that is not negative; ties go to the even last digit. -/
def fixed (precision : ℕ) (x : ℚ) : List Char :=
  let n := (halfEven (x*10^precision)).toNat
  Nat.toDigits 10 (n/10^precision) ++
    '.'::(Nat.toDigits 10 (n%10^precision)).leftpad precision '0'

example : fixed 2 (2/3) = "0.67".toList := by decide +kernel

/-- Only digits and the point occur. -/
lemma not_mem_fixed {c : Char} (hdigit : c.isDigit = false) (hpoint : c ≠ '.') (precision : ℕ)
    (x : ℚ) : c ∉ fixed precision x := by
  have hdigits : ∀ n, c ∉ Nat.toDigits 10 n := fun n hmem => by
    rw [Nat.isDigit_of_mem_toDigits (by decide) (by decide) hmem] at hdigit
    cases hdigit
  rw [fixed,List.mem_append,List.mem_cons,List.leftpad,List.mem_append]
  rintro (h | h | h | h)
  · exact hdigits _ h
  · exact hpoint h
  · rw [List.eq_of_mem_replicate h] at hdigit
    cases hdigit
  · exact hdigits _ h

lemma fixed_ne_nil (precision : ℕ) (x : ℚ) : fixed precision x ≠ [] :=
  List.append_ne_nil_of_right_ne_nil _ (List.cons_ne_nil _ _)

/-- A number with one digit in front of the point. -/
lemma length_fixed_le {precision : ℕ} {x : ℚ} (hprecision : 0 < precision)
    (h : halfEven (x*10^precision) < 10*10^precision) :
    (fixed precision x).length ≤ precision+2 := by
  have hpow : 0 < 10^precision := Nat.pow_pos (by decide)
  have hpos : 0 < 10*10^precision := Nat.mul_pos (by decide) hpow
  have hn : (halfEven (x*10^precision)).toNat < 10*10^precision :=
    (Int.toNat_lt' hpos).mpr (by exact_mod_cast h)
  have hint : (Nat.toDigits 10 ((halfEven (x*10^precision)).toNat/10^precision)).length ≤ 1 :=
    (Nat.length_toDigits_le_iff (by decide) (by decide)).mpr
      (by rw [pow_one]; exact (Nat.div_lt_iff_lt_mul hpow).mpr hn)
  have hfrac : (Nat.toDigits 10 ((halfEven (x*10^precision)).toNat%10^precision)).length ≤
      precision :=
    (Nat.length_toDigits_le_iff (by decide) hprecision).mpr (Nat.mod_lt _ hpow)
  rw [fixed,List.length_append,List.length_cons,List.length_leftpad,max_eq_left hfrac]
  omega

end UarchBench.Base
