import UarchBench.Base.Alignment

/-! The two lazily allocated storage pools behind `aligned_ptr` and `aligned_ptr_4k`. Pointers
and sizes are 64-bit words; each call carries the answers that `posix_memalign` would give it. -/
namespace UarchBench.StoragePool
open Base

abbrev Word := BitVec 64

def twoMB : Word := 2*1024*1024
def storageSize : Word := 512*1024*1024

/-- The memory obtained by one successful `posix_memalign`. -/
structure Block where
  start : ℕ
  size : ℕ
  deriving DecidableEq, Repr

/-- The global pool pointers, null before their first use, and the blocks they point into. -/
structure Pools where
  storagePtrHuge : Word := 0
  storagePtr4k : Word := 0
  blockHuge : Block := ⟨0,0⟩
  block4k : Block := ⟨0,0⟩

/-- `posix_memalign`: an address for a size and an alignment, or an error code. -/
abbrev Memalign := Word → Word → Option Word

/-- A block has the requested alignment and lies in the address space with its whole size. -/
def Memalign.Spec (memalign : Memalign) : Prop :=
  ∀ size alignment p, memalign size alignment = some p →
    p.toNat%alignment.toNat = 0 ∧ p.toNat+size.toNat ≤ 2^64

/-- One call of `aligned_ptr` (`huge`) or of `aligned_ptr_4k`. -/
structure Call where
  huge : Bool
  baseAlignment : Word
  requiredSize : Word
  setZero : Bool
  memalign : Memalign

inductive Outcome
  | assertionFailed (condition : String)
  | threw (what : String)
  | returned (p : Word) (zeroFill : Option Block)
  deriving DecidableEq, Repr

def newAlignedPointer (memalign : Memalign) (size alignment : Word) : Except Outcome Word :=
  match memalign size alignment with
  | none => .error (.threw "posix_memalign failed")
  | some ptr => .ok ptr

/-- The pointer and the block of a huge allocation; with `MADV_HUGEPAGE` support the first
2 MiB of the block are skipped. -/
def newHugePtr (hugepages : Bool) (memalign : Memalign) (size : Word) :
    Except Outcome (Word × Block) :=
  match newAlignedPointer memalign (size+twoMB) twoMB with
  | .error e => .error e
  | .ok ptr =>
    .ok (if hugepages then ptr+twoMB else ptr,⟨ptr.toNat,(size+twoMB).toNat⟩)

/-- The check `space < required_size + padding` in `align`. -/
def spaceTooSmall (baseAlignment requiredSize p space : Word) : Bool :=
  space < requiredSize+(alignUp p baseAlignment-p)

/-- The pointer that `align` computes: the null result of a failed space check is overwritten
before anything reads it. -/
def alignedResult (baseAlignment requiredSize p space : Word) : Word := Id.run do
  let mut r : Word := 0
  if spaceTooSmall baseAlignment requiredSize p space then
    r := 0
  r := alignUp p baseAlignment
  return r

@[simp] theorem alignedResult_eq (baseAlignment requiredSize p space : Word) :
    alignedResult baseAlignment requiredSize p space = alignUp p baseAlignment := by
  simp [alignedResult]

def align (baseAlignment requiredSize p space : Word) : Except Outcome Word :=
  let r := alignedResult baseAlignment requiredSize p space
  if r = 0 then .error (.assertionFailed "r")
  else if r &&& (baseAlignment-1) ≠ 0 then
    .error (.assertionFailed "(((uintptr_t)r) & (base_alignment - 1)) == 0")
  else .ok r

namespace Pools

def storagePtr (s : Pools) (huge : Bool) : Word :=
  if huge then s.storagePtrHuge else s.storagePtr4k

/-- The memory allocated for a pool. -/
def block (s : Pools) (huge : Bool) : Block := if huge then s.blockHuge else s.block4k

end Pools

/-- Allocate the pool of this call unless an earlier call did. -/
def ensurePool (hugepages : Bool) (s : Pools) (c : Call) : Except Outcome Pools :=
  if s.storagePtr c.huge ≠ 0 then .ok s
  else if c.huge then
    match newHugePtr hugepages c.memalign storageSize with
    | .error e => .error e
    | .ok (ptr,block) => .ok { s with storagePtrHuge := ptr, blockHuge := block }
  else
    match newAlignedPointer c.memalign storageSize c.baseAlignment with
    | .error e => .error e
    | .ok ptr => .ok { s with storagePtr4k := ptr, block4k := ⟨ptr.toNat,storageSize.toNat⟩ }

def alignedPtrHelper (hugepages : Bool) (s : Pools) (c : Call) : Pools × Outcome :=
  if ¬ c.requiredSize ≤ storageSize then
    (s,.assertionFailed "required_size <= STORAGE_SIZE")
  else if isPow2 c.baseAlignment = false then
    (s,.assertionFailed "is_pow2(base_alignment)")
  else if ¬ c.baseAlignment ≤ twoMB then
    (s,.assertionFailed "base_alignment <= TWO_MB")
  else
    match ensurePool hugepages s c with
    | .error e => (s,e)
    | .ok s' =>
      match align c.baseAlignment c.requiredSize (s'.storagePtr c.huge) storageSize with
      | .error e => (s',e)
      | .ok p =>
        (s',.returned p (if c.setZero then some ⟨p.toNat,c.requiredSize.toNat⟩ else none))

/-- One call of a run with the pools around it. -/
structure Entry where
  call : Call
  before : Pools
  after : Pools
  outcome : Outcome

def entry (hugepages : Bool) (s : Pools) (c : Call) : Entry :=
  ⟨c,s,(alignedPtrHelper hugepages s c).1,(alignedPtrHelper hugepages s c).2⟩

/-- A sequence of calls; a failed assertion aborts the process. -/
def run (hugepages : Bool) (s : Pools) : List Call → List Entry
  | [] => []
  | c::cs =>
    let e := entry hugepages s c
    match e.outcome with
    | .assertionFailed _ => [e]
    | _ => e::run hugepages e.after cs

def Block.Contains (b : Block) (start size : ℕ) : Prop :=
  b.start ≤ start ∧ start+size ≤ b.start+b.size

instance (b : Block) (start size : ℕ) : Decidable (b.Contains start size) :=
  inferInstanceAs (Decidable (_ ∧ _))

/-- The promise of the pool: a failed assertion, or an aligned pointer whose whole range, and
with it the zero fill, lies inside the memory of its pool. -/
def Outcome.Safe (c : Call) (pool : Block) : Outcome → Prop
  | .assertionFailed _ => True
  | .threw _ => False
  | .returned p zeroFill =>
    p.toNat%c.baseAlignment.toNat = 0 ∧ pool.Contains p.toNat c.requiredSize.toNat ∧
    ∀ z ∈ zeroFill, pool.Contains z.start z.size

instance (c : Call) (pool : Block) : ∀ o : Outcome, Decidable (o.Safe c pool)
  | .assertionFailed _ => inferInstanceAs (Decidable True)
  | .threw _ => inferInstanceAs (Decidable False)
  | .returned _ _ => inferInstanceAs (Decidable (_ ∧ _ ∧ _))

def Entry.Safe (e : Entry) : Prop := e.outcome.Safe e.call (e.after.block e.call.huge)

instance (e : Entry) : Decidable e.Safe := inferInstanceAs (Decidable (Outcome.Safe _ _ _))

/-- A pool pointer in use has room for the whole storage, and the huge one is 2 MiB aligned. -/
structure Pools.Inv (s : Pools) : Prop where
  huge : s.storagePtrHuge ≠ 0 → s.storagePtrHuge.toNat%2^21 = 0 ∧
    s.blockHuge.Contains s.storagePtrHuge.toNat storageSize.toNat
  fourK : s.storagePtr4k ≠ 0 → s.block4k = ⟨s.storagePtr4k.toNat,storageSize.toNat⟩ ∧
    s.storagePtr4k.toNat+storageSize.toNat ≤ 2^64

theorem Pools.inv_init : Pools.Inv {} := ⟨fun h => absurd rfl h,fun h => absurd rfl h⟩

@[simp] lemma storageSize_toNat : storageSize.toNat = 2^29 := rfl
@[simp] lemma twoMB_toNat : twoMB.toNat = 2^21 := rfl

/-- A null address fails the assertion of `align`. -/
theorem align_null {base required p space : Word} (h : alignUp p base = 0) :
    align base required p space = .error (.assertionFailed "r") := by
  simp only [align,alignedResult_eq,h,↓reduceIte]

section Aligned
variable {k : ℕ} {base : Word} (hk : k ≤ 21) (hbase : base.toNat = 2^k)
include hk hbase

lemma alignUp_fits {p : Word} (hr : alignUp p base ≠ 0) : p.toNat+2^k ≤ 2^64 := by
  by_contra hwrap
  exact hr (BitVec.eq_of_toNat_eq (alignUp_wraps (by omega) hbase p (by omega)))

/-- The check that `align` computes and then ignores decides whether the aligned range still
ends inside the storage. -/
theorem fits_iff_check {p required : Word} (hrequired : required ≤ storageSize)
    (hr : alignUp p base ≠ 0) :
    (alignUp p base).toNat+required.toNat ≤ p.toNat+storageSize.toNat ↔
      spaceTooSmall base required p storageSize = false := by
  obtain ⟨hle,hlt⟩ := alignUp_bounds (by omega) hbase p (alignUp_fits hk hbase hr)
  have hpow : 2^k ≤ 2^21 := Nat.pow_le_pow_right (by omega) hk
  have hreq : required.toNat ≤ 2^29 := hrequired
  have hpadding : (alignUp p base-p).toNat = (alignUp p base).toNat-p.toNat :=
    BitVec.toNat_sub_of_le hle
  have hsum : (required+(alignUp p base-p)).toNat =
      required.toNat+((alignUp p base).toNat-p.toNat) := by
    rw [BitVec.toNat_add,hpadding]
    exact Nat.mod_eq_of_lt (by omega)
  simp only [spaceTooSmall,decide_eq_false_iff_not,BitVec.lt_def,hsum,storageSize_toNat]
  omega

/-- Any other address passes both assertions, whether or not the space check failed. -/
theorem align_ok {p required space : Word} (hr : alignUp p base ≠ 0) :
    align base required p space = .ok (alignUp p base) := by
  have hmask : alignUp p base &&& (base-1) = 0 := by
    have hone : (1 : Word) ≤ base := by
      rw [BitVec.le_def,hbase]
      exact Nat.one_le_two_pow
    have hpred : (base-1).toNat = 2^k-1 := by
      rw [BitVec.toNat_sub_of_le hone,hbase]
      rfl
    apply BitVec.eq_of_toNat_eq
    rw [BitVec.toNat_and,hpred,Nat.and_two_pow_sub_one_eq_mod]
    exact toNat_alignUp_mod (by omega) hbase p
  simp only [align,alignedResult_eq,hr,hmask,ne_eq,not_true_eq_false,↓reduceIte]

/-- A pool pointer that already has the alignment needs no padding. -/
lemma check_of_aligned {p required : Word} (hrequired : required ≤ storageSize)
    (hp : p.toNat%2^k = 0) : spaceTooSmall base required p storageSize = false := by
  rw [spaceTooSmall,alignUp_of_aligned (by omega) hbase p hp,BitVec.sub_self,BitVec.add_zero]
  exact decide_eq_false (BitVec.not_lt.mpr hrequired)

end Aligned

lemma pointer_ne_zero {k : ℕ} {base p : Word} (hk : k ≤ 21) (hbase : base.toNat = 2^k)
    (hr : alignUp p base ≠ 0) : p ≠ 0 := by
  rintro rfl
  exact hr (alignUp_of_aligned (by omega) hbase 0 (by simp))

/-- The assumption on `posix_memalign`: a call that allocates gets a block. -/
def AllocationSucceeds (s : Pools) (c : Call) : Prop :=
  s.storagePtr c.huge = 0 →
    (if c.huge then c.memalign (storageSize+twoMB) twoMB
      else c.memalign storageSize c.baseAlignment).isSome = true

/-- The condition under which a call is safe: on an existing 4k pool, the space check that is
computed and dropped would have passed. -/
def SpaceCheckPasses (s : Pools) (c : Call) : Prop :=
  c.huge = false → s.storagePtr4k ≠ 0 →
    spaceTooSmall c.baseAlignment c.requiredSize s.storagePtr4k storageSize = false

instance (s : Pools) (c : Call) : Decidable (AllocationSucceeds s c) :=
  inferInstanceAs (Decidable (_ → _))

instance (s : Pools) (c : Call) : Decidable (SpaceCheckPasses s c) :=
  inferInstanceAs (Decidable (_ → _))

/-- A pool is created once: the call either finds it or gets a block of its own. -/
theorem ensurePool_cases {hugepages : Bool} {s s' : Pools} {c : Call}
    (h : ensurePool hugepages s c = .ok s') :
    (s.storagePtr c.huge ≠ 0 ∧ s' = s) ∨
    (c.huge = true ∧ ∃ ptr, c.memalign (storageSize+twoMB) twoMB = some ptr ∧
      s' = { s with storagePtrHuge := if hugepages then ptr+twoMB else ptr
                    blockHuge := ⟨ptr.toNat,(storageSize+twoMB).toNat⟩ }) ∨
    (c.huge = false ∧ ∃ ptr, c.memalign storageSize c.baseAlignment = some ptr ∧
      s' = { s with storagePtr4k := ptr, block4k := ⟨ptr.toNat,storageSize.toNat⟩ }) := by
  by_cases hptr : s.storagePtr c.huge ≠ 0
  · rw [ensurePool,if_pos hptr] at h
    cases h
    exact Or.inl ⟨hptr,rfl⟩
  · rw [ensurePool,if_neg hptr] at h
    cases hh : c.huge with
    | true =>
      cases hm : c.memalign (storageSize+twoMB) twoMB with
      | none => simp [hh,newHugePtr,newAlignedPointer,hm] at h
      | some ptr =>
        simp only [hh,newHugePtr,newAlignedPointer,hm,↓reduceIte,Except.ok.injEq] at h
        exact Or.inr (Or.inl ⟨rfl,ptr,rfl,h.symm⟩)
    | false =>
      cases hm : c.memalign storageSize c.baseAlignment with
      | none => simp [hh,newAlignedPointer,hm] at h
      | some ptr =>
        simp only [hh,newAlignedPointer,hm,Bool.false_eq_true,↓reduceIte,Except.ok.injEq] at h
        exact Or.inr (Or.inr ⟨rfl,ptr,rfl,h.symm⟩)

theorem ensurePool_inv {hugepages : Bool} {s s' : Pools} {c : Call}
    (h : ensurePool hugepages s c = .ok s') (hspec : c.memalign.Spec) (hinv : s.Inv) :
    s'.Inv := by
  obtain ⟨-,rfl⟩ | ⟨-,ptr,hm,rfl⟩ | ⟨-,ptr,hm,rfl⟩ := ensurePool_cases h
  · exact hinv
  · obtain ⟨halign,hfit⟩ := hspec _ _ _ hm
    have hsize : (storageSize+twoMB).toNat = 2^29+2^21 := rfl
    rw [twoMB_toNat] at halign
    rw [hsize] at hfit
    refine ⟨fun _ => ?_,hinv.fourK⟩
    cases hugepages with
    | true =>
      have hadd : (ptr+twoMB).toNat = ptr.toNat+2^21 := by
        rw [BitVec.toNat_add,twoMB_toNat,Nat.mod_eq_of_lt (by omega)]
      simp only [↓reduceIte,Block.Contains,hadd,hsize,storageSize_toNat]
      omega
    | false =>
      simp only [Bool.false_eq_true,↓reduceIte,Block.Contains,hsize,storageSize_toNat]
      omega
  · obtain ⟨-,hfit⟩ := hspec _ _ _ hm
    exact ⟨hinv.huge,fun _ => ⟨rfl,hfit⟩⟩

theorem ensurePool_isOk (hugepages : Bool) {s : Pools} {c : Call}
    (h : AllocationSucceeds s c) : ∃ s', ensurePool hugepages s c = .ok s' := by
  by_cases hptr : s.storagePtr c.huge ≠ 0
  · exact ⟨s,if_pos hptr⟩
  · rw [ensurePool,if_neg hptr]
    have hsome := h (not_not.mp hptr)
    cases hh : c.huge with
    | true =>
      simp only [hh,↓reduceIte] at hsome
      obtain ⟨ptr,hptr⟩ := Option.isSome_iff_exists.mp hsome
      simp [newHugePtr,newAlignedPointer,hptr]
    | false =>
      simp only [hh,Bool.false_eq_true,↓reduceIte] at hsome
      obtain ⟨ptr,hptr⟩ := Option.isSome_iff_exists.mp hsome
      simp [newAlignedPointer,hptr]

/-- A valid alignment is a power of two of at most 2 MiB. -/
lemma alignment_exponent {base : Word} (hpow : isPow2 base = true) (hle : base ≤ twoMB) :
    ∃ k ≤ 21, base.toNat = 2^k := by
  obtain ⟨k,-,hk⟩ := isPow2_toNat hpow
  have h : base.toNat ≤ 2^21 := hle
  rw [hk] at h
  exact ⟨k,(Nat.pow_le_pow_iff_right (by omega)).mp h,hk⟩

section Step
variable {hugepages : Bool} {s s' : Pools} {c : Call} {k : ℕ}
  (hensure : ensurePool hugepages s c = .ok s') (hk : k ≤ 21) (hbase : c.baseAlignment.toNat = 2^k)
  (hrequired : c.requiredSize ≤ storageSize)
  (hr : alignUp (s'.storagePtr c.huge) c.baseAlignment ≠ 0)
include hensure hk hbase hrequired hr

/-- On the pool that a call uses, the dropped check passes: a new pool has the alignment of its
first caller, and the huge pool that of every caller. -/
lemma check_passes (hspec : c.memalign.Spec) (hinv : s'.Inv) (hcheck : SpaceCheckPasses s c) :
    spaceTooSmall c.baseAlignment c.requiredSize (s'.storagePtr c.huge) storageSize = false := by
  have hptr := pointer_ne_zero hk hbase hr
  cases hh : c.huge with
  | true =>
    simp only [Pools.storagePtr,hh,↓reduceIte] at hptr ⊢
    have halign := (hinv.huge hptr).1
    exact check_of_aligned hk hbase hrequired
      (Nat.mod_eq_zero_of_dvd ((pow_dvd_pow 2 hk).trans (Nat.dvd_of_mod_eq_zero halign)))
  | false =>
    simp only [Pools.storagePtr,hh,Bool.false_eq_true,↓reduceIte] at hptr ⊢
    obtain ⟨-,rfl⟩ | ⟨hhuge,-⟩ | ⟨-,ptr,hm,rfl⟩ := ensurePool_cases hensure
    · exact hcheck hh hptr
    · rw [hh] at hhuge
      contradiction
    · have halign := (hspec _ _ _ hm).1
      rw [hbase] at halign
      exact check_of_aligned hk hbase hrequired halign

omit hensure in
lemma contains_returned (hinv : s'.Inv)
    (hcheck : spaceTooSmall c.baseAlignment c.requiredSize (s'.storagePtr c.huge) storageSize =
      false) :
    (s'.block c.huge).Contains (alignUp (s'.storagePtr c.huge) c.baseAlignment).toNat
      c.requiredSize.toNat := by
  have hfits := (fits_iff_check hk hbase hrequired hr).mpr hcheck
  have hle := (alignUp_bounds (by omega) hbase _ (alignUp_fits hk hbase hr)).1
  have hptr := pointer_ne_zero hk hbase hr
  cases hh : c.huge with
  | true =>
    simp only [Pools.storagePtr,Pools.block,hh,↓reduceIte] at hfits hle hptr ⊢
    obtain ⟨hstart,hend⟩ := (hinv.huge hptr).2
    exact ⟨hstart.trans hle,hfits.trans hend⟩
  | false =>
    simp only [Pools.storagePtr,Pools.block,hh,Bool.false_eq_true,↓reduceIte] at hfits hle hptr ⊢
    rw [(hinv.fourK hptr).1]
    exact ⟨hle,hfits⟩

end Step

/-- A call whose pool is ready is safe if the check passes for the pointer it returns. -/
lemma entry_safe_of_ensured {hugepages : Bool} {s s' : Pools} {c : Call}
    (hensure : ensurePool hugepages s c = .ok s') (hinv : s'.Inv)
    (hrequired : c.requiredSize ≤ storageSize) (hpow : isPow2 c.baseAlignment = true)
    (hle : c.baseAlignment ≤ twoMB)
    (hcheck : alignUp (s'.storagePtr c.huge) c.baseAlignment ≠ 0 →
      spaceTooSmall c.baseAlignment c.requiredSize (s'.storagePtr c.huge) storageSize = false) :
    (entry hugepages s c).Safe ∧ (entry hugepages s c).after.Inv := by
  obtain ⟨k,hk,hbase⟩ := alignment_exponent hpow hle
  simp only [entry,Entry.Safe,alignedPtrHelper,hrequired,hpow,hle,hensure,not_true_eq_false,
    Bool.true_eq_false,↓reduceIte]
  by_cases hr : alignUp (s'.storagePtr c.huge) c.baseAlignment = 0
  · rw [align_null hr]
    exact ⟨trivial,hinv⟩
  · have hin := contains_returned hk hbase hrequired hr hinv (hcheck hr)
    rw [align_ok hk hbase hr]
    refine ⟨⟨?_,hin,?_⟩,hinv⟩
    · rw [hbase]
      exact toNat_alignUp_mod (by omega) hbase _
    · intro z hz
      split_ifs at hz with hzero
      · cases hz
        exact hin
      · simp at hz

/-- One call: from pools in order, it keeps them in order, and it is safe when the allocation
it may need succeeds and the dropped space check would have passed. -/
theorem entry_safe (hugepages : Bool) (s : Pools) (c : Call) (hspec : c.memalign.Spec)
    (hinv : s.Inv) (halloc : AllocationSucceeds s c) (hcheck : SpaceCheckPasses s c) :
    (entry hugepages s c).Safe ∧ (entry hugepages s c).after.Inv := by
  by_cases hrequired : c.requiredSize ≤ storageSize
  · by_cases hpow : isPow2 c.baseAlignment = true
    · by_cases hle : c.baseAlignment ≤ twoMB
      · obtain ⟨k,hk,hbase⟩ := alignment_exponent hpow hle
        obtain ⟨s',hensure⟩ := ensurePool_isOk hugepages halloc
        have hinv' := ensurePool_inv hensure hspec hinv
        exact entry_safe_of_ensured hensure hinv' hrequired hpow hle
          (fun hr => check_passes hensure hk hbase hrequired hr hspec hinv' hcheck)
      · simp [entry,Entry.Safe,Outcome.Safe,alignedPtrHelper,hrequired,hpow,hle,hinv]
    · simp [entry,Entry.Safe,Outcome.Safe,alignedPtrHelper,hrequired,hpow,hinv]
  · simp [entry,Entry.Safe,Outcome.Safe,alignedPtrHelper,hrequired,hinv]

/-- On an existing 4k pool the condition is exact: a call that gets past the assertions is safe
only if the dropped check would have passed. -/
theorem entry_safe_iff_check (hugepages : Bool) (s : Pools) (c : Call) (hinv : s.Inv)
    (hhuge : c.huge = false) (hptr : s.storagePtr4k ≠ 0) (hrequired : c.requiredSize ≤ storageSize)
    (hpow : isPow2 c.baseAlignment = true) (hle : c.baseAlignment ≤ twoMB)
    (hr : alignUp s.storagePtr4k c.baseAlignment ≠ 0) :
    (entry hugepages s c).Safe ↔
      spaceTooSmall c.baseAlignment c.requiredSize s.storagePtr4k storageSize = false := by
  obtain ⟨k,hk,hbase⟩ := alignment_exponent hpow hle
  have hpool : s.storagePtr false = s.storagePtr4k := rfl
  have hensure : ensurePool hugepages s c = .ok s := if_pos (by rwa [hhuge,hpool])
  constructor
  · intro hsafe
    simp only [entry,Entry.Safe,Outcome.Safe,alignedPtrHelper,hrequired,hpow,hle,hensure,hpool,
      not_true_eq_false,Bool.true_eq_false,↓reduceIte,align_ok hk hbase hr,Pools.block,hhuge,
      Bool.false_eq_true,(hinv.fourK hptr).1] at hsafe
    exact (fits_iff_check hk hbase hrequired hr).mp hsafe.2.1.2
  · intro hcheck
    exact (entry_safe_of_ensured hensure hinv hrequired hpow hle (fun _ => by rwa [hhuge,hpool])).1

/-- Any run: as long as every call meets the condition, every call is safe. -/
theorem run_safe (hugepages : Bool) (calls : List Call) (s : Pools) (hinv : s.Inv)
    (hspec : ∀ c ∈ calls, c.memalign.Spec)
    (hcond : ∀ e ∈ run hugepages s calls,
      AllocationSucceeds e.before e.call ∧ SpaceCheckPasses e.before e.call) :
    ∀ e ∈ run hugepages s calls, e.Safe := by
  induction calls generalizing s with
  | nil => simp [run]
  | cons c cs ih =>
    have hfirst : entry hugepages s c ∈ run hugepages s (c::cs) := by
      simp only [run]
      split <;> simp
    obtain ⟨hsafe,hafter⟩ := entry_safe hugepages s c (hspec c List.mem_cons_self) hinv
      (hcond _ hfirst).1 (hcond _ hfirst).2
    have hrest := ih (entry hugepages s c).after hafter
      (fun d hd => hspec d (List.mem_cons_of_mem c hd))
    simp only [run] at hcond ⊢
    split at hcond
    · simpa using hsafe
    · simp only [List.mem_cons,forall_eq_or_imp] at hcond ⊢
      exact ⟨hsafe,hrest hcond.2⟩

/-- From no storage, every run whose calls meet the condition only returns safe pointers. -/
theorem alignedPtr_runs_safe (hugepages : Bool) (calls : List Call)
    (hspec : ∀ c ∈ calls, c.memalign.Spec)
    (hcond : ∀ e ∈ run hugepages {} calls,
      AllocationSucceeds e.before e.call ∧ SpaceCheckPasses e.before e.call) :
    ∀ e ∈ run hugepages {} calls, e.Safe :=
  run_safe hugepages calls {} Pools.inv_init hspec hcond

/-- A `posix_memalign` that only serves the 4k pool, 64-byte aligned. -/
def memalignAt64 : Memalign :=
  fun size alignment => if size = storageSize ∧ alignment = 64 then some 0x10000040 else none

lemma memalignAt64_spec : memalignAt64.Spec := by
  intro size alignment p h
  simp only [memalignAt64] at h
  split_ifs at h with hs
  obtain ⟨rfl,rfl⟩ := hs
  cases h
  decide

/-- Two calls for the 4k pool: the first one fixes its alignment at 64, the second one asks for
whole pages. -/
def pagesAfterLines (pageBytes : Word) : List Call :=
  [⟨false,64,64,false,memalignAt64⟩,⟨false,4096,pageBytes,true,memalignAt64⟩]

lemma pagesAfterLines_spec (pageBytes : Word) :
    ∀ c ∈ pagesAfterLines pageBytes, c.memalign.Spec := by
  intro c hc
  simp only [pagesAfterLines,List.mem_cons,List.not_mem_nil,or_false] at hc
  obtain rfl | rfl := hc <;> exact memalignAt64_spec

/-- With one page the second call fits behind its padding. -/
theorem alignedPtr_one_page_safe :
    ∃ first second, run true {} (pagesAfterLines 4096) = [first,second] ∧
      first.Safe ∧ second.Safe := by
  have h := alignedPtr_runs_safe true (pagesAfterLines 4096) (pagesAfterLines_spec 4096) (by decide)
  have hrun : run true {} (pagesAfterLines 4096) = [_,_] := rfl
  rw [hrun] at h
  exact ⟨_,_,hrun,h _ List.mem_cons_self,h _ (List.mem_cons_of_mem _ List.mem_cons_self)⟩

/-- With the full storage size the second call zero-fills past the end of the pool. -/
theorem alignedPtr_full_storage_unsafe :
    ¬ ∀ (hugepages : Bool) (calls : List Call), (∀ c ∈ calls, c.memalign.Spec) →
      (∀ e ∈ run hugepages {} calls, AllocationSucceeds e.before e.call) →
      ∀ e ∈ run hugepages {} calls, e.Safe := by
  intro h
  have hunsafe := h true (pagesAfterLines storageSize) (pagesAfterLines_spec storageSize)
    (by decide)
  revert hunsafe
  decide

end UarchBench.StoragePool
