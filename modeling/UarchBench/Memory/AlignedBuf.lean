import UarchBench.Base.Loop
import UarchBench.Memory.ShuffledRegion

/-! Buffers on the stack that are aligned by hand, and kernels that store at an offset to the
aligned pointer. One of them also goes backwards from it. -/
namespace UarchBench.AlignedBuf
open Base

/-- `std::align`: the first aligned address with room for the size, if there is one. -/
def stdAlign (alignment size p space : ℕ) : Option ℕ :=
  let padding := (alignment-p%alignment)%alignment
  if size+padding ≤ space then some (p+padding) else none

/-- `aligned_buf<T, S, A>`. -/
structure Buf where
  sizeofT : ℕ
  S : ℕ
  A : ℕ

namespace Buf

/-- `BUF_SIZE`. -/
def bufSize (buf : Buf) : ℕ := buf.sizeofT*buf.S+buf.A

/-- `aligned_buf::get` for an object at an address. -/
def get (buf : Buf) (base : ℕ) : Except Failure ℕ :=
  match stdAlign buf.A buf.S base buf.bufSize with
  | none => .error (.assertion "ret")
  | some ret => .ok ret

/-- The bytes of an access belong to the object. -/
def Holds (buf : Buf) (base address bytes : ℕ) : Prop :=
  base ≤ address ∧ address+bytes ≤ base+buf.bufSize

end Buf

/-- The buffer of the kernels. -/
def storesBuf : Buf := ⟨8,1024,128⟩

structure State where
  i : ℕ
  stores : List ℕ

/-- `ALIGNED_STORES_UNROLL`. -/
def alignedStoresUnroll : ℕ := 16

/-- `aligned_stores_helper`: the addresses of its stores of 8 bytes in the first trips. -/
def alignedStoresHelper (roll iters offset base trips : ℕ) : Except Failure (List ℕ) := do
  let p ← storesBuf.get base
  let vptr := (p+offset)%addressSpace
  let body := fun s : State => ⟨(s.i+alignedStoresUnroll)%addressSpace,
    s.stores ++ (List.range alignedStoresUnroll).map (fun n => (vptr+8*(n*roll))%addressSpace)⟩
  return (afterTrips (fun s : State => decide (s.i < iters)) body trips ⟨0,[]⟩).stores

def misalignedStoresSameloc (iters offset base trips : ℕ) : Except Failure (List ℕ) :=
  alignedStoresHelper 0 iters offset base trips

def misalignedStoresRolling (iters offset base trips : ℕ) : Except Failure (List ℕ) :=
  alignedStoresHelper 1 iters offset base trips

/-- `TWOLOC_STORES_UNROLL`. -/
def twolocStoresUnroll : ℕ := 8

/-- `misaligned_stores_twoloc`, which subtracts the offset from 61 for its second location. -/
def misalignedStoresTwoloc (iters offset base trips : ℕ) : Except Failure (List ℕ) := do
  let p ← storesBuf.get base
  let vptr0 := (p+offset)%addressSpace
  let vptr1 := (p+61+addressSpace-offset)%addressSpace
  let body := fun s : State => ⟨(s.i+twolocStoresUnroll*2)%addressSpace,
    s.stores ++ (List.replicate twolocStoresUnroll [vptr0,vptr1]).flatten⟩
  return (afterTrips (fun s : State => decide (s.i < iters)) body trips ⟨0,[]⟩).stores

/-- The offsets that the registration passes. -/
def registeredOffsets : List ℕ := List.range 65

/-- All stores lie in the object, in however many trips. -/
def StoresInside (kernel : ℕ → Except Failure (List ℕ)) (base : ℕ) : Prop :=
  ∀ trips, ∃ stores, kernel trips = .ok stores ∧ ∀ a ∈ stores, storesBuf.Holds base a 8

/-- The bytes in front of the first aligned address. -/
def padding (alignment p : ℕ) : ℕ := (alignment-p%alignment)%alignment

lemma padding_lt {alignment : ℕ} (h : 0 < alignment) (p : ℕ) : padding alignment p < alignment :=
  Nat.mod_lt _ h

lemma padding_aligns {alignment : ℕ} (h : 0 < alignment) (p : ℕ) :
    (p+padding alignment p)%alignment = 0 := by
  have hlt := Nat.mod_lt p h
  have hdiv := Nat.div_add_mod p alignment
  by_cases hzero : p%alignment = 0
  · rw [padding,hzero,Nat.sub_zero,Nat.mod_self,Nat.add_zero,hzero]
  · have hpad : padding alignment p = alignment-p%alignment := Nat.mod_eq_of_lt (by omega)
    have hnext : p+padding alignment p = alignment*(p/alignment+1) := by
      rw [hpad,Nat.mul_succ]
      omega
    rw [hnext,Nat.mul_mod_right]

/-- There is always room: the alignment adds more bytes than the padding takes. -/
theorem Buf.get_ok {buf : Buf} (hA : 0 < buf.A) (hT : 1 ≤ buf.sizeofT) (base : ℕ) :
    buf.get base = .ok (base+padding buf.A base) := by
  have hroom : buf.S+padding buf.A base ≤ buf.bufSize := by
    have hpad := padding_lt hA base
    have hS := Nat.le_mul_of_pos_left buf.S hT
    rw [bufSize]
    omega
  have hsome : stdAlign buf.A buf.S base buf.bufSize = some (base+padding buf.A base) :=
    if_pos hroom
  rw [get,hsome]

section Kernels
variable {base offset iters : ℕ} (hbase : base+storesBuf.bufSize ≤ addressSpace)
  (hoffset : offset ∈ registeredOffsets)

lemma storesBuf_get (base : ℕ) : storesBuf.get base = .ok (base+padding 128 base) :=
  Buf.get_ok (by decide) (by decide) base

lemma storesBuf_bufSize : storesBuf.bufSize = 8320 := rfl

include hbase hoffset

/-- Up to sixteen elements from the offset on there is still room behind the padding. -/
lemma alignedStoresHelper_inside {roll : ℕ} (hroll : roll ≤ 1) :
    StoresInside (alignedStoresHelper roll iters offset base) base := by
  intro trips
  have hle : offset < 65 := List.mem_range.mp hoffset
  have hpad := padding_lt (show 0 < 128 by decide) base
  rw [storesBuf_bufSize] at hbase
  refine ⟨_,by rw [alignedStoresHelper,storesBuf_get]; rfl,?_⟩
  refine afterTrips_rule (fun s : State => ∀ a ∈ s.stores, storesBuf.Holds base a 8)
    (fun s hs _ => List.forall_mem_append.mpr ⟨hs,fun a ha => ?_⟩)
    (fun a ha => absurd ha List.not_mem_nil) trips
  obtain ⟨n,hn,rfl⟩ := List.mem_map.mp ha
  have hn' : n < 16 := List.mem_range.mp hn
  have hmul : n*roll ≤ n*1 := Nat.mul_le_mul_left n hroll
  have hptr : (base+padding 128 base+offset)%addressSpace = base+padding 128 base+offset :=
    Nat.mod_eq_of_lt (by omega)
  rw [hptr,Nat.mod_eq_of_lt (by omega),Buf.Holds,storesBuf_bufSize]
  omega

omit hbase hoffset in
/-- The locations of a trip. -/
lemma misalignedStoresTwoloc_trip {a : ℕ} :
    a ∈ (List.replicate twolocStoresUnroll [(base+padding 128 base+offset)%addressSpace,
        (base+padding 128 base+61+addressSpace-offset)%addressSpace]).flatten ↔
      a = (base+padding 128 base+offset)%addressSpace ∨
        a = (base+padding 128 base+61+addressSpace-offset)%addressSpace := by
  simp only [List.mem_flatten,List.mem_replicate]
  constructor
  · rintro ⟨l,⟨-,rfl⟩,ha⟩
    exact List.mem_pair.mp ha
  · exact fun ha => ⟨_,⟨by decide,rfl⟩,List.mem_pair.mpr ha⟩

/-- The second location stays behind the start of the object as long as the padding makes up for
what the offset exceeds 61 by. -/
lemma misalignedStoresTwoloc_inside_iff :
    StoresInside (misalignedStoresTwoloc iters offset base) base ↔
      iters = 0 ∨ offset ≤ 61+padding 128 base := by
  have hle : offset < 65 := List.mem_range.mp hoffset
  have hpad := padding_lt (show 0 < 128 by decide) base
  have hspace : base+8320 ≤ 2^64 := hbase
  constructor
  · intro h
    obtain ⟨stores,hstores,hinside⟩ := h 1
    rw [misalignedStoresTwoloc,storesBuf_get] at hstores
    obtain rfl := Except.ok.inj hstores
    by_contra hnot
    rw [not_or] at hnot
    have hcond : decide (0 < iters) = true := decide_eq_true (Nat.pos_of_ne_zero hnot.1)
    have hback := hinside ((base+padding 128 base+61+addressSpace-offset)%addressSpace) (by
      rw [afterTrips,if_pos hcond]
      exact List.mem_append_right _ (misalignedStoresTwoloc_trip.mpr (Or.inr rfl)))
    rw [Buf.Holds,storesBuf_bufSize,addressSpace] at hback
    omega
  · intro h trips
    refine ⟨_,by rw [misalignedStoresTwoloc,storesBuf_get]; rfl,?_⟩
    refine afterTrips_rule (fun s : State => ∀ a ∈ s.stores, storesBuf.Holds base a 8)
      (fun s hs hcond => List.forall_mem_append.mpr ⟨hs,fun a ha => ?_⟩)
      (fun a ha => absurd ha List.not_mem_nil) trips
    have hiters : s.i < iters := of_decide_eq_true hcond
    rw [Buf.Holds,storesBuf_bufSize]
    rcases misalignedStoresTwoloc_trip.mp ha with rfl | rfl
    · rw [addressSpace]
      omega
    · rw [addressSpace]
      omega

end Kernels

/-- The pointer of a buffer is aligned and has room for all elements behind it. The kernels store
inside their buffer, except for the second location of `misaligned_stores_twoloc`, which lies in
front of it if the offset exceeds 61 by more bytes than the padding has. -/
theorem alignedBuf_stores_inside_iff (buf : Buf) (base : ℕ) (hT : 1 ≤ buf.sizeofT)
    (hA : buf.A.isPowerOfTwo) (stack iters offset : ℕ) (hstack : stack+storesBuf.bufSize ≤ addressSpace)
    (hoffset : offset ∈ registeredOffsets) :
    (∃ p, buf.get base = .ok p ∧ p%buf.A = 0 ∧ buf.Holds base p (buf.sizeofT*buf.S)) ∧
      StoresInside (misalignedStoresSameloc iters offset stack) stack ∧
      StoresInside (misalignedStoresRolling iters offset stack) stack ∧
      (StoresInside (misalignedStoresTwoloc iters offset stack) stack ↔
        iters = 0 ∨ offset ≤ 61+(128-stack%128)%128) := by
  refine ⟨?_,?_,?_,?_⟩
  · have hpos : 0 < buf.A := Nat.pos_of_isPowerOfTwo hA
    have hpad := padding_lt hpos base
    refine ⟨_,Buf.get_ok hpos hT base,padding_aligns hpos base,Nat.le_add_right _ _,?_⟩
    rw [Buf.bufSize]
    omega
  · exact alignedStoresHelper_inside hstack hoffset (Nat.zero_le 1)
  · exact alignedStoresHelper_inside hstack hoffset le_rfl
  · exact misalignedStoresTwoloc_inside_iff hstack hoffset

/-- An odd buffer, and an offset up to which the second location is not in front of the first. -/
theorem alignedBuf_stores_inside_61 :
    (∃ p, Buf.get ⟨3,5,16⟩ 1003 = .ok p ∧ p%16 = 0 ∧ Buf.Holds ⟨3,5,16⟩ 1003 p (3*5)) ∧
      StoresInside (misalignedStoresSameloc 16 61 1048576) 1048576 ∧
      StoresInside (misalignedStoresRolling 16 61 1048576) 1048576 ∧
      (StoresInside (misalignedStoresTwoloc 16 61 1048576) 1048576 ↔
        16 = 0 ∨ 61 ≤ 61+(128-1048576%128)%128) :=
  alignedBuf_stores_inside_iff ⟨3,5,16⟩ 1003 (by decide) ⟨4,rfl⟩ 1048576 16 61 (by decide) (by decide)

/-- An object that is aligned itself has no padding, and the largest offset goes three bytes below
it. -/
theorem misalignedStoresTwoloc_below :
    1048576+storesBuf.bufSize ≤ addressSpace ∧ 64 ∈ registeredOffsets ∧
      ¬ StoresInside (misalignedStoresTwoloc 16 64 1048576) 1048576 := by
  refine ⟨by decide,by decide,fun h => ?_⟩
  have hinside := (misalignedStoresTwoloc_inside_iff (by decide) (by decide)).mp h
  exact absurd hinside (by decide)

end UarchBench.AlignedBuf
