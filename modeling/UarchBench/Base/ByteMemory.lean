import Mathlib.Data.UInt
import Mathlib.Logic.Function.Basic
import Mathlib.Tactic.Ring

/-! Byte-addressed memory with little-endian words of any width. A store changes exactly the
bytes of its range, and a load depends on nothing else. -/
namespace UarchBench.Base

abbrev Memory := ℕ → UInt8

namespace Memory

/-- The little-endian word of the given number of bytes. -/
def load (m : Memory) (a : ℕ) : ℕ → ℕ
  | 0 => 0
  | width+1 => (m a).toNat + 256*load m (a+1) width

/-- Write the low bytes of a value, the least significant one first. -/
def store (m : Memory) (a : ℕ) : ℕ → ℕ → Memory
  | 0, _ => m
  | width+1, v => store (Function.update m a (UInt8.ofNat v)) (a+1) width (v/256)

/-- Every byte of the range gets the same value. -/
def fill (m : Memory) (a size : ℕ) (b : UInt8) : Memory :=
  fun x => if a ≤ x ∧ x < a+size then b else m x

theorem store_outside (m : Memory) (a width v x : ℕ) (h : x < a ∨ a+width ≤ x) :
    store m a width v x = m x := by
  induction width generalizing m a v with
  | zero => rfl
  | succ width ih =>
    rw [store,ih _ _ _ (by omega),Function.update_of_ne (by omega)]

theorem fill_outside (m : Memory) (a size : ℕ) (b : UInt8) (x : ℕ)
    (h : x < a ∨ a+size ≤ x) : fill m a size b x = m x := by
  rw [fill,if_neg (by omega)]

/-- A load only depends on the bytes of its own range. -/
theorem load_congr (m m' : Memory) (a width : ℕ)
    (h : ∀ x, a ≤ x → x < a+width → m x = m' x) : load m a width = load m' a width := by
  induction width generalizing a with
  | zero => rfl
  | succ width ih =>
    rw [load,load,h a le_rfl (by omega),ih (a+1) (fun x hx hx' => h x (by omega) (by omega))]

theorem load_store_same (m : Memory) (a width v : ℕ) :
    load (store m a width v) a width = v%256^width := by
  induction width generalizing m a v with
  | zero => simp [load,Nat.mod_one]
  | succ width ih =>
    have hp : 256^(width+1) = 256*256^width := pow_succ' 256 width
    rw [load,store,ih,store_outside _ _ _ _ _ (by omega),Function.update_self,
      UInt8.toNat_ofNat',hp,Nat.mod_mul]

theorem load_lt (m : Memory) (a width : ℕ) : load m a width < 256^width := by
  induction width generalizing a with
  | zero => exact Nat.one_pos
  | succ width ih =>
    have hbyte : (m a).toNat < 256 := (m a).toNat_lt
    have hrest := ih (a+1)
    rw [load,pow_succ']
    omega

/-- Two words that lie one behind the other are a word with the second one in the high part. -/
theorem load_append (m : Memory) (a width width' : ℕ) :
    load m a (width+width') = load m a width+256^width*load m (a+width) width' := by
  induction width generalizing a with
  | zero => rw [Nat.zero_add,load,pow_zero,Nat.zero_add,Nat.one_mul,Nat.add_zero]
  | succ width ih =>
    rw [Nat.succ_add,load,load,ih,pow_succ',Nat.add_assoc a 1 width,Nat.add_comm 1 width]
    ring

/-- A store does not change a word that lies apart from it. -/
theorem load_store_apart (m : Memory) (a b width width' v : ℕ)
    (h : b+width' ≤ a ∨ a+width ≤ b) :
    load (store m a width v) b width' = load m b width' :=
  load_congr _ _ _ _ (fun x _ _ => store_outside m a width v x (by omega))

theorem load_zero (m : Memory) (a width : ℕ) (h : ∀ x, a ≤ x → x < a+width → m x = 0) :
    load m a width = 0 := by
  induction width generalizing a with
  | zero => rfl
  | succ width ih =>
    rw [load,h a le_rfl (by omega),ih (a+1) (fun x hx hx' => h x (by omega) (by omega))]
    rfl

/-- Storing a zero word keeps the zero bytes, wherever it goes. -/
theorem store_zero_of_zero (m : Memory) (a width x : ℕ) (h : m x = 0) :
    store m a width 0 x = 0 := by
  induction width generalizing m a with
  | zero => exact h
  | succ width ih =>
    rw [store,Nat.zero_div]
    refine ih _ _ ?_
    rw [Function.update_apply]
    split_ifs
    · rfl
    · exact h

end Memory
end UarchBench.Base
