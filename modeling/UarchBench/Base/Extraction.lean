import Mathlib.Data.Int.Notation
import Mathlib.Data.List.TakeWhile

/-! Formatted input of integers from a text: white space in front is skipped, a sign and the digits
behind it are read, and what follows them is left. -/
namespace UarchBench.Base

/-- White space of the C locale. -/
def isSpace (c : Char) : Bool := c = ' ' ∨ '\t' ≤ c ∧ c ≤ '\r'

structure Extracted where
  negative : Bool
  digits : List Char
  rest : List Char
  deriving DecidableEq, Repr

def splitSign : List Char → Bool × List Char
  | '-'::text => (true,text)
  | '+'::text => (false,text)
  | text => (false,text)

/-- Nothing is read from a text without anything but white space. -/
def extract (text : List Char) : Option Extracted :=
  match text.dropWhile isSpace with
  | [] => none
  | text => some ⟨(splitSign text).1,(splitSign text).2.takeWhile Char.isDigit,
      (splitSign text).2.dropWhile Char.isDigit⟩

/-- It is zero without digits. -/
def Extracted.magnitude (e : Extracted) : ℕ := Nat.ofDigitChars 10 e.digits 0

def Extracted.toInt (e : Extracted) : ℤ := if e.negative then -e.magnitude else e.magnitude

/-- A number that is too large becomes the largest one; a sign wraps around. -/
def Extracted.toUInt32 (e : Extracted) : UInt32 :=
  if UInt32.size ≤ e.magnitude then -1
  else if e.negative then -UInt32.ofNat e.magnitude
  else UInt32.ofNat e.magnitude

/-- A number that is too large or too small becomes the nearest one. -/
def Extracted.toInt32 (e : Extracted) : Int32 := Int32.ofIntClamp e.toInt

/-- The shortest text of an integer. -/
def integerText (z : ℤ) : List Char :=
  if z < 0 then '-'::Nat.toDigits 10 z.natAbs else Nat.toDigits 10 z.natAbs

section Digits
variable (n : ℕ)

lemma isDigit_toDigits {c : Char} (h : c ∈ Nat.toDigits 10 n) : c.isDigit = true :=
  Nat.isDigit_of_mem_toDigits (by decide) (by decide) h

lemma exists_toDigits : ∃ c digits, Nat.toDigits 10 n = c::digits ∧ c.isDigit = true := by
  obtain ⟨c,digits,h⟩ := List.exists_cons_of_ne_nil
    (List.ne_nil_of_length_pos (Nat.length_toDigits_pos (b := 10) (n := n)))
  exact ⟨c,digits,h,isDigit_toDigits n (h ▸ List.mem_cons_self)⟩

lemma takeWhile_toDigits : (Nat.toDigits 10 n).takeWhile Char.isDigit = Nat.toDigits 10 n :=
  List.takeWhile_eq_self_iff.mpr (fun _ h => isDigit_toDigits n h)

lemma dropWhile_toDigits : (Nat.toDigits 10 n).dropWhile Char.isDigit = [] :=
  List.dropWhile_eq_nil_iff.mpr (fun _ h => isDigit_toDigits n h)

lemma isSpace_of_isDigit {c : Char} (h : c.isDigit = true) : isSpace c = false := by
  simp only [Char.isDigit,Bool.and_eq_true,decide_eq_true_eq,UInt32.le_iff_toNat_le] at h
  simp only [isSpace,Char.le_def,UInt32.le_iff_toNat_le,decide_eq_false_iff_not,not_or,
    Char.ext_iff,← UInt32.toNat_inj]
  have h48 : ('0' : Char).val.toNat = 48 := rfl
  have h32 : (' ' : Char).val.toNat = 32 := rfl
  have h13 : ('\r' : Char).val.toNat = 13 := rfl
  omega

lemma splitSign_of_isDigit {c : Char} (h : c.isDigit = true) (text : List Char) :
    splitSign (c::text) = (false,c::text) := by
  have hminus : c ≠ '-' := by rintro rfl; cases h
  have hplus : c ≠ '+' := by rintro rfl; cases h
  rw [splitSign] <;> simp [hminus,hplus]

lemma extract_toDigits : extract (Nat.toDigits 10 n) = some ⟨false,Nat.toDigits 10 n,[]⟩ := by
  obtain ⟨c,digits,h,hc⟩ := exists_toDigits n
  have hspace : (Nat.toDigits 10 n).dropWhile isSpace = c::digits := by
    rw [h]
    exact List.dropWhile_cons_of_neg (by rw [isSpace_of_isDigit hc]; decide)
  rw [extract,hspace]
  dsimp only
  rw [splitSign_of_isDigit hc,← h,takeWhile_toDigits,dropWhile_toDigits]

lemma extract_minus : extract ('-'::Nat.toDigits 10 n) = some ⟨true,Nat.toDigits 10 n,[]⟩ := by
  have hspace : ('-'::Nat.toDigits 10 n).dropWhile isSpace = '-'::Nat.toDigits 10 n := rfl
  rw [extract,hspace]
  dsimp only
  rw [splitSign,takeWhile_toDigits,dropWhile_toDigits]

end Digits

/-- The text of a number is read back. -/
theorem extract_integerText (z : ℤ) :
    ∃ e, extract (integerText z) = some e ∧ e.rest = [] ∧ e.toInt = z := by
  rw [integerText]
  split_ifs with h
  · refine ⟨_,extract_minus _,rfl,?_⟩
    rw [Extracted.toInt,if_pos rfl,Extracted.magnitude,Nat.ofDigitChars_ten_toDigits]
    omega
  · refine ⟨_,extract_toDigits _,rfl,?_⟩
    rw [Extracted.toInt,if_neg Bool.false_ne_true,Extracted.magnitude,
      Nat.ofDigitChars_ten_toDigits]
    omega

theorem toUInt32_toDigits (n : UInt32) :
    Extracted.toUInt32 ⟨false,Nat.toDigits 10 n.toNat,[]⟩ = n := by
  rw [Extracted.toUInt32,Extracted.magnitude,Nat.ofDigitChars_ten_toDigits,
    if_neg (Nat.not_le.mpr n.toNat_lt_size),if_neg Bool.false_ne_true,UInt32.ofNat_toNat]

theorem toInt32_of_toInt {e : Extracted} {n : Int32} (h : e.toInt = n.toInt) : e.toInt32 = n := by
  rw [Extracted.toInt32,h]
  exact Int32.toInt_inj.mp (Int32.toInt_ofIntClamp n.le_toInt n.toInt_le)

example : (extract " +007x".toList).map Extracted.toInt = some 7 := by decide

end UarchBench.Base
