import Mathlib.Data.UInt
import Mathlib.Tactic.Ring

/-! Byte memory at all addresses of a machine word: the address behind the last one is zero. How far
a byte lies behind the address of an access decides whether the access touches it. -/
namespace UarchBench.Base
variable {w : ℕ}

abbrev WrapMemory (w : ℕ) := BitVec w → UInt8

lemma toNat_sub_add_one {x a : BitVec w} {n : ℕ} (h : (x-(a+1)).toNat < n) (hn : n < 2^w) :
    (x-a).toNat = (x-(a+1)).toNat+1 := by
  have hone : (1 : BitVec w).toNat = 1 := Nat.mod_eq_of_lt (show 1 < 2^w by omega)
  have hsub : x-a = x-(a+1)+1 := by
    rw [BitVec.sub_eq_iff_eq_add,BitVec.add_assoc,BitVec.add_comm 1 a,BitVec.sub_add_cancel]
  rw [hsub,BitVec.toNat_add,hone]
  exact Nat.mod_eq_of_lt (by omega)

namespace WrapMemory

/-- The little-endian word of the given number of bytes. -/
def load (m : WrapMemory w) (a : BitVec w) : ℕ → ℕ
  | 0 => 0
  | bytes+1 => (m a).toNat+256*load m (a+1) bytes

/-- Write the low bytes of a value, the least significant one first. -/
def store (m : WrapMemory w) (a : BitVec w) (bytes v : ℕ) : WrapMemory w := fun x =>
  if (x-a).toNat < bytes then UInt8.ofNat (v/256^(x-a).toNat) else m x

theorem store_outside {m : WrapMemory w} {a x : BitVec w} {bytes v : ℕ}
    (h : bytes ≤ (x-a).toNat) : store m a bytes v x = m x := if_neg (Nat.not_lt.mpr h)

/-- A load only depends on the bytes of its own range. -/
theorem load_congr {m m' : WrapMemory w} {a : BitVec w} {bytes : ℕ} (hbytes : bytes ≤ 2^w)
    (h : ∀ x, (x-a).toNat < bytes → m x = m' x) : load m a bytes = load m' a bytes := by
  induction bytes generalizing a with
  | zero => rfl
  | succ bytes ih =>
    have hfirst : m a = m' a := h a (by rw [BitVec.sub_self,BitVec.toNat_zero]; omega)
    rw [load,load,hfirst,ih (by omega) (fun x hx => h x (by
      rw [toNat_sub_add_one hx (by omega)]
      omega))]

/-- The word whose bytes are those of a number. -/
theorem load_bytes {m : WrapMemory w} {a : BitVec w} {bytes v : ℕ} (hbytes : bytes ≤ 2^w)
    (h : ∀ x, (x-a).toNat < bytes → m x = UInt8.ofNat (v/256^(x-a).toNat)) :
    load m a bytes = v%256^bytes := by
  induction bytes generalizing a v with
  | zero => rw [load,pow_zero,Nat.mod_one]
  | succ bytes ih =>
    have hfirst : m a = UInt8.ofNat v := by
      have hzero := h a (by rw [BitVec.sub_self,BitVec.toNat_zero]; omega)
      rwa [BitVec.sub_self,BitVec.toNat_zero,pow_zero,Nat.div_one] at hzero
    have hrest : load m (a+1) bytes = v/256%256^bytes := ih (by omega) (fun x hx => by
      have hnext := toNat_sub_add_one hx (by omega)
      rw [h x (by omega),hnext,pow_succ',Nat.div_div_eq_div_mul])
    rw [load,hfirst,hrest,UInt8.toNat_ofNat',pow_succ' 256 bytes,Nat.mod_mul]

theorem load_store_same {m : WrapMemory w} {a : BitVec w} {bytes v : ℕ} (hbytes : bytes ≤ 2^w) :
    load (store m a bytes v) a bytes = v%256^bytes :=
  load_bytes hbytes (fun _ hx => if_pos hx)

/-- A store does not change a word that has no byte in common with it. -/
theorem load_store_apart {m : WrapMemory w} {a b : BitVec w} {bytes bytes' v : ℕ}
    (hbytes : bytes' ≤ 2^w) (h : ∀ x, (x-b).toNat < bytes' → bytes ≤ (x-a).toNat) :
    load (store m a bytes v) b bytes' = load m b bytes' :=
  load_congr hbytes (fun x hx => store_outside (h x hx))

theorem load_lt (m : WrapMemory w) (a : BitVec w) (bytes : ℕ) : load m a bytes < 256^bytes := by
  induction bytes generalizing a with
  | zero => exact Nat.one_pos
  | succ bytes ih =>
    have hfirst := (m a).toNat_lt
    have hrest := ih (a+1)
    rw [load,pow_succ']
    omega

/-- The bytes of a word that is loaded. -/
theorem load_byte (m : WrapMemory w) {a x : BitVec w} {bytes : ℕ} (hbytes : bytes ≤ 2^w)
    (hx : (x-a).toNat < bytes) : UInt8.ofNat (load m a bytes/256^(x-a).toNat) = m x := by
  induction bytes generalizing a with
  | zero => exact absurd hx (Nat.not_lt_zero _)
  | succ bytes ih =>
    rcases Nat.eq_zero_or_pos (x-a).toNat with hzero | hpos
    · have hxa : x = a := by
        rw [← BitVec.sub_add_cancel x a,BitVec.eq_of_toNat_eq (hzero.trans BitVec.toNat_zero.symm),
          BitVec.zero_add]
      rw [hzero,hxa,pow_zero,Nat.div_one,load,← UInt8.toNat_inj,UInt8.toNat_ofNat',
        Nat.add_mul_mod_self_left]
      exact Nat.mod_eq_of_lt (m a).toNat_lt
    · have hone : (1 : BitVec w).toNat = 1 := Nat.mod_eq_of_lt (show 1 < 2^w by omega)
      have hsub : x-(a+1) = x-a-1 := (BitVec.sub_sub x a 1).symm
      have hprev : (x-(a+1)).toNat = (x-a).toNat-1 := by
        rw [hsub,BitVec.toNat_sub_of_le (by rw [BitVec.le_def,hone]; exact hpos),hone]
      have hnext : (x-a).toNat = (x-(a+1)).toNat+1 := by omega
      rw [hnext,pow_succ',← Nat.div_div_eq_div_mul,load,Nat.add_mul_div_left _ _ (by decide),
        Nat.div_eq_of_lt (m a).toNat_lt,Nat.zero_add]
      exact ih (by omega) (by omega)

/-- To write back what has been read changes nothing. -/
theorem store_load (m : WrapMemory w) (a : BitVec w) {bytes : ℕ} (hbytes : bytes ≤ 2^w) :
    store m a bytes (load m a bytes) = m := by
  funext x
  rw [store]
  split_ifs with hx
  · exact load_byte m hbytes hx
  · rfl

end WrapMemory
end UarchBench.Base
