import Mathlib.Data.Int.Log
import Mathlib.Data.Rat.Floor
import Mathlib.Algebra.Order.Field.Power
import Mathlib.Tactic.Linarith

/-! Finite doubles as rational numbers: rounding to the nearest one, ties to even, as far as no
result is too large. Integers of at most 53 bits are not changed. -/
namespace UarchBench.Base

/-- The integer nearest to a number, and the even one if there are two. -/
def halfEven (x : ℚ) : ℤ :=
  if x-⌊x⌋ < 1/2 ∨ (x-⌊x⌋ = 1/2 ∧ ⌊x⌋%2 = 0) then ⌊x⌋ else ⌊x⌋+1

/-- The exponent of the last of the 53 bits; it does not become smaller for subnormal numbers. -/
def lastExponent (x : ℚ) : ℤ := max (Int.log 2 |x|-52) (-1074)

def roundDouble (x : ℚ) : ℚ := halfEven (x/2^lastExponent x)*2^lastExponent x

def doubleMax : ℚ := (2-1/2^52)*2^1023

/-- The least positive number that is not subnormal. -/
def doubleMin : ℚ := 1/2^1022

lemma doubleMin_pos : 0 < doubleMin := one_div_pos.mpr (pow_pos two_pos 1022)

lemma doubleMin_lt_one : doubleMin < 1 :=
  (div_lt_one (pow_pos two_pos 1022)).mpr (one_lt_pow₀ one_lt_two (by omega))

lemma lt_doubleMax {x : ℚ} (h : x ≤ 2^53) : x < doubleMax := by
  have hpow : (2 : ℚ)^53 ≤ 2^1023 := pow_le_pow_right₀ one_le_two (by omega)
  have hfactor : (1 : ℚ) < 2-1/2^52 := by norm_num
  calc
    x ≤ 1*2^1023 := by rw [one_mul]; exact h.trans hpow
    _ < doubleMax := (mul_lt_mul_iff_left₀ (pow_pos two_pos 1023)).mpr hfactor

lemma halfEven_int (n : ℤ) : halfEven n = n := by
  rw [halfEven,Int.floor_intCast,sub_self,if_pos (Or.inl (by norm_num))]

/-- A multiple of its last place is a double. -/
lemma roundDouble_of_multiple {x : ℚ} {n : ℤ} (h : x = n*2^lastExponent x) :
    roundDouble x = x := by
  have hpos : (2 : ℚ)^lastExponent x ≠ 0 := zpow_ne_zero _ (by norm_num)
  have hdiv : x/2^lastExponent x = n := by rw [div_eq_iff hpos,← h]
  rw [roundDouble,hdiv,halfEven_int,← h]

/-- Integers below 2^53 have their last place after the point. -/
lemma lastExponent_nonpos {x : ℚ} (hx : x ≠ 0) (h : |x| < 2^53) : lastExponent x ≤ 0 := by
  have hlog := Int.zpow_log_le_self (b := 2) (r := |x|) (by norm_num) (abs_pos.mpr hx)
  have hlt : ((2 : ℕ) : ℚ)^Int.log 2 |x| < 2^(53 : ℤ) := hlog.trans_lt h
  have hexp : Int.log 2 |x| < 53 := (zpow_lt_zpow_iff_right₀ (by norm_num)).mp hlt
  rw [lastExponent]
  exact max_le (by omega) (by norm_num)

lemma lastExponent_of_abs_eq {x : ℚ} (h : |x| = 2^53) : lastExponent x = 1 := by
  have hlog : Int.log 2 |x| = 53 := by
    rw [h]
    exact Int.log_zpow (R := ℚ) (b := 2) (by norm_num) 53
  rw [lastExponent,hlog]
  rfl

theorem roundDouble_int {n : ℤ} (h : |n| ≤ 2^53) : roundDouble n = n := by
  rcases h.lt_or_eq with hlt | heq
  · by_cases hn : n = 0
    · subst hn
      exact roundDouble_of_multiple (n := 0) (by simp)
    · have hcast : |(n : ℚ)| < 2^53 := by exact_mod_cast hlt
      have hexp := lastExponent_nonpos (Int.cast_ne_zero.mpr hn) hcast
      obtain ⟨k,hk⟩ := Int.eq_ofNat_of_zero_le (neg_nonneg.mpr hexp)
      refine roundDouble_of_multiple (n := n*2^k) ?_
      rw [show lastExponent (n : ℚ) = -(k : ℤ) by omega,zpow_neg,zpow_natCast,Int.cast_mul,
        Int.cast_pow,Int.cast_ofNat,mul_assoc,mul_inv_cancel₀ (by positivity),mul_one]
  · have hcast : |(n : ℚ)| = 2^53 := by exact_mod_cast heq
    have hexp := lastExponent_of_abs_eq hcast
    have heven : n = n/2*2 := by
      rcases abs_choice n with habs | habs
      all_goals omega
    refine roundDouble_of_multiple (n := n/2) ?_
    rw [hexp,zpow_one]
    exact_mod_cast heven

lemma abs_halfEven_sub_le (x : ℚ) : |halfEven x-x| ≤ 1/2 := by
  have hle := Int.floor_le x
  have hlt := Int.lt_floor_add_one x
  rw [halfEven]
  split_ifs with h
  · have hhalf : x-⌊x⌋ ≤ 1/2 := by
      rcases h with h | ⟨h,-⟩
      · exact h.le
      · exact h.le
    rw [abs_le]
    constructor <;> linarith
  · have hhalf : 1/2 ≤ x-⌊x⌋ := not_lt.mp (fun hlt => h (Or.inl hlt))
    rw [Int.cast_add,Int.cast_one,abs_le]
    constructor <;> linarith

lemma abs_roundDouble_sub_le (x : ℚ) : |roundDouble x-x| ≤ 2^lastExponent x/2 := by
  have hpos : (0 : ℚ) < 2^lastExponent x := zpow_pos two_pos _
  have hsub : roundDouble x-x = (halfEven (x/2^lastExponent x)-x/2^lastExponent x)*
      2^lastExponent x := by
    rw [sub_mul,div_mul_cancel₀ _ hpos.ne']
    rfl
  rw [hsub,abs_mul,abs_of_pos hpos]
  have hscaled := mul_le_mul_of_nonneg_right (abs_halfEven_sub_le (x/2^lastExponent x)) hpos.le
  linarith

/-- From `doubleMin` on the last place is small against the number. -/
lemma zpow_lastExponent_le {x : ℚ} (h : doubleMin ≤ |x|) : 2^lastExponent x ≤ |x|/2^52 := by
  have hx : |x| ≠ 0 := (doubleMin_pos.trans_le h).ne'
  have hmin : doubleMin = 2^(-1022 : ℤ) := by rw [doubleMin,zpow_neg,one_div]; rfl
  have hlog : -1022 ≤ Int.log 2 |x| := by
    rw [← Int.zpow_le_iff_le_log (by decide) (doubleMin_pos.trans_le h)]
    rw [hmin] at h
    exact_mod_cast h
  have hlast : lastExponent x = Int.log 2 |x|-52 := max_eq_left (by omega)
  rw [hlast,zpow_sub₀ two_ne_zero]
  gcongr
  · exact_mod_cast Int.zpow_log_le_self (by decide) (doubleMin_pos.trans_le h)
  · norm_num

/-- A count changes by less than a quarter of it. -/
lemma roundDouble_nat (n : ℕ) : (n : ℚ)*(3/4) ≤ roundDouble n ∧ roundDouble n ≤ n*(5/4) := by
  rcases Nat.eq_zero_or_pos n with rfl | hn
  · have hzero : roundDouble (0 : ℕ) = 0 := by exact_mod_cast roundDouble_int (n := 0) (by norm_num)
    rw [hzero]
    norm_num
  · have hone : (1 : ℚ) ≤ n := by exact_mod_cast hn
    have habs : |(n : ℚ)| = n := abs_of_nonneg (by linarith)
    have herror := abs_roundDouble_sub_le n
    have hlast := zpow_lastExponent_le (x := n) (by rw [habs]; linarith [doubleMin_lt_one])
    rw [habs] at hlast
    rw [abs_le] at herror
    constructor
    · linarith [herror.1]
    · linarith [herror.2]

/-- Below `2^53` the result moves by a half at most. -/
lemma roundDouble_le_add_half {x : ℚ} (h : |x| < 2^53) : roundDouble x ≤ x+1/2 := by
  rcases eq_or_ne x 0 with rfl | hx
  · have hzero : roundDouble 0 = 0 := by exact_mod_cast roundDouble_int (n := 0) (by norm_num)
    rw [hzero]
    norm_num
  · have herror := (abs_le.mp (abs_roundDouble_sub_le x)).2
    have hlast : (2 : ℚ)^lastExponent x ≤ 1 :=
      zpow_le_one_of_nonpos₀ one_le_two (lastExponent_nonpos hx h)
    linarith

end UarchBench.Base
