import UarchBench.Base.Alignment
import UarchBench.Base.ByteMemory
import UarchBench.Base.Countdown
import UarchBench.Base.Stride
import UarchBench.Kernels.Bandwidth

/-! The fencing kernels: a load that walks the region page by page, and a store whose address
depends on the loaded value in one variant. The region must stay zero for the stores to stay in
place. -/
namespace UarchBench.TlbFencing
open Base Bandwidth

inductive Variant
  | dep
  | indep
  deriving DecidableEq, Repr

/-- The chain instruction between load and store, on `rcx` and `rdx`: it clears an unused register
or the loaded value. -/
def Variant.chain (rcx rdx : Word) : Variant → Word × Word
  | dep => (0,rdx)
  | indep => (rcx,0)

structure State where
  rax : Word
  rdi : Word
  flags : Flags
  mem : Memory
  loads : List Word
  stores : List Word

/-- One trip of `.top`, with `r9` and `rsi` at the start of the region and the mask in `r10`. -/
def trip (V : Variant) (size start : Word) (s : State) : State :=
  let r10 := size-1
  let rcx := (s.rax &&& r10)+start
  let rdx := BitVec.ofNat 64 (s.mem.load rcx.toNat 8)
  let target := start+(V.chain rcx rdx).2+160
  { rax := s.rax+64*67
    rdi := s.rdi-1
    flags := subFlags s.rdi 1
    mem := s.mem.store target.toNat 4 0
    loads := s.loads ++ [rcx]
    stores := s.stores ++ [target] }

def entry (iters : Word) (mem : Memory) : State := ⟨0,iters,⟨true,false,false⟩,mem,[],[]⟩

/-- `tlb_fencing_dep` and `tlb_fencing_indep`; the pointer to the end of the region is computed in
`r8` and never used. -/
def tlbFencing (V : Variant) (size start iters : Word) (mem : Memory) (fuel : ℕ) : Option State :=
  (doWhile (fun s => some (trip V size start s)) (fun s => s.flags.jnz) fuel
    (entry iters mem)).map (fun r => r.1)

/-- The state at the top of trip `k`, counted from zero. -/
def atTop (V : Variant) (size start iters : Word) (mem : Memory) (k : ℕ) : State :=
  (trip V size start)^[k] (entry iters mem)

/-- The byte offset of load `k`. -/
def loadOffset (size : Word) (k : ℕ) : ℕ := 64*67*k%size.toNat

section Trip
variable (V : Variant) (size start iters : Word) (mem : Memory)

lemma atTop_succ (k : ℕ) : atTop V size start iters mem (k+1) =
    trip V size start (atTop V size start iters mem k) :=
  Function.iterate_succ_apply' _ _ _

lemma atTop_rax (k : ℕ) :
    (atTop V size start iters mem k).rax = BitVec.ofNat 64 (64*67*k) := by
  induction k with
  | zero => rfl
  | succ k ih =>
    rw [atTop_succ,show 64*67*(k+1) = 64*67*k+64*67 by omega,BitVec.ofNat_add,← ih]
    rfl

/-- The load address of trip `k`. -/
def loadAt (size start : Word) (k : ℕ) : Word :=
  (BitVec.ofNat 64 (64*67*k) &&& (size-1))+start

lemma atTop_loads (k : ℕ) :
    (atTop V size start iters mem k).loads = (List.range k).map (loadAt size start) := by
  induction k with
  | zero => rfl
  | succ k ih =>
    rw [atTop_succ,trip,ih,atTop_rax,List.range_succ,List.map_append]
    rfl

end Trip

/-- What the registration asks for. -/
structure RegionFits (size start : Word) : Prop where
  pow : isPow2 size = true
  page : 4096 ≤ size.toNat
  alloc : start.toNat+size.toNat+256 ≤ 2^64

section Region
variable {size start : Word} (hregion : RegionFits size start)
include hregion

/-- The mask keeps the low bits of the walked distance, also after the register has wrapped. -/
lemma masked_toNat (k : ℕ) :
    (BitVec.ofNat 64 (64*67*k) &&& (size-1)).toNat = loadOffset size k := by
  obtain ⟨m,hm,hsize⟩ := isPow2_toNat hregion.pow
  have hpage := hregion.page
  have hmask : (size-1).toNat = 2^m-1 := by
    rw [toNat_pred (by omega),hsize,show 2^64-1+2^m = 2^64+(2^m-1) by omega,Nat.add_mod_left]
    exact Nat.mod_eq_of_lt (by omega)
  rw [BitVec.toNat_and,hmask,Nat.and_two_pow_sub_one_eq_mod,BitVec.toNat_ofNat,loadOffset,hsize,
    Nat.mod_mod_of_dvd _ (Nat.pow_dvd_pow 2 hm.le)]

lemma size_lines : ∃ lines, size.toNat = 64*lines ∧ Nat.Coprime 67 lines := by
  obtain ⟨m,hm,hsize⟩ := isPow2_toNat hregion.pow
  have hpage := hregion.page
  have hm12 : 6 ≤ m := by
    by_contra hlt
    have : 2^m ≤ 2^6 := Nat.pow_le_pow_right (by omega) (by omega)
    omega
  refine ⟨2^(m-6),?_,Nat.Coprime.pow_right _ (by decide)⟩
  rw [hsize,show 64 = 2^6 from rfl,← pow_add]
  congr 1
  omega

lemma loadOffset_lt (k : ℕ) : loadOffset size k < size.toNat :=
  Nat.mod_lt _ (by have := hregion.page; omega)

lemma loadAt_toNat (k : ℕ) : (loadAt size start k).toNat = start.toNat+loadOffset size k := by
  have hlt := loadOffset_lt hregion k
  have halloc := hregion.alloc
  rw [loadAt,BitVec.toNat_add,masked_toNat hregion]
  omega

/-- A load stays in its line, so inside the region. -/
lemma loadAt_line (k : ℕ) : ∃ line, 67*k%(size.toNat/64) = line ∧
    (loadAt size start k).toNat = start.toNat+64*line ∧ line < size.toNat/64 := by
  obtain ⟨lines,hlines,-⟩ := size_lines hregion
  have hpage := hregion.page
  have hdiv : size.toNat/64 = lines := by omega
  refine ⟨_,rfl,?_,?_⟩
  · rw [loadAt_toNat hregion,loadOffset,hdiv,hlines,Nat.mul_assoc,Nat.mul_mod_mul_left]
  · exact Nat.mod_lt _ (by omega)

/-- The invariant at the top of a trip. -/
def RegionZero (size start : Word) (mem : Memory) : Prop :=
  ∀ x, start.toNat ≤ x → x < start.toNat+size.toNat → mem x = 0

lemma load_eq_zero {mem : Memory} (hzero : RegionZero size start mem) (k : ℕ) :
    mem.load (loadAt size start k).toNat 8 = 0 := by
  obtain ⟨line,-,hload,hline⟩ := loadAt_line hregion k
  exact Memory.load_zero _ _ _ (fun x hx hx' => hzero x (by omega) (by omega))

end Region

section Run
variable (V : Variant) {size start : Word} (hregion : RegionFits size start) (iters : Word)
  {mem : Memory} (hzero : RegionZero size start mem)
include hregion hzero

omit hregion in
/-- The stores write zeros, so the region stays zero wherever they go. -/
theorem atTop_zero (k : ℕ) : RegionZero size start (atTop V size start iters mem k).mem := by
  induction k with
  | zero => exact hzero
  | succ k ih =>
    intro x hx hx'
    rw [atTop_succ,trip]
    exact Memory.store_zero_of_zero _ _ _ _ (ih x hx hx')

/-- In both variants the register in the store address is zero. -/
lemma chain_eq_zero (k : ℕ) :
    (V.chain (loadAt size start k) (BitVec.ofNat 64
      ((atTop V size start iters mem k).mem.load (loadAt size start k).toNat 8))).2 = 0 := by
  cases V with
  | dep =>
    rw [load_eq_zero hregion (atTop_zero .dep iters hzero k)]
    rfl
  | indep => rfl

theorem atTop_stores (k : ℕ) :
    (atTop V size start iters mem k).stores = List.replicate k (start+160) := by
  induction k with
  | zero => rfl
  | succ k ih =>
    have hchain := chain_eq_zero V hregion iters hzero k
    have hstart : start+(0 : Word) = start := BitVec.add_zero start
    rw [loadAt,← atTop_rax V size start iters mem] at hchain
    simp only [atTop_succ,trip,hchain,ih,hstart,List.replicate_succ']

end Run

/-- For every iteration count the loads stay inside the region, the stores hit byte 160 of it, the
region stays zero, and any `size/64` consecutive loads visit every line exactly once. -/
theorem tlbFencing_covers (V : Variant) (size start iters : Word) (mem : Memory)
    (hpow : isPow2 size = true) (hpage : 4096 ≤ size.toNat)
    (halloc : start.toNat+size.toNat+256 ≤ 2^64)
    (hzero : ∀ x, start.toNat ≤ x → x < start.toNat+size.toNat → mem x = 0) :
    ∃ final, (∀ fuel, decTrips iters ≤ fuel →
        tlbFencing V size start iters mem fuel = some final) ∧
      final.loads.length = decTrips iters ∧ final.stores.length = decTrips iters ∧
      (∀ a ∈ final.loads, start.toNat ≤ a.toNat ∧ a.toNat+8 ≤ start.toNat+size.toNat) ∧
      (∀ a ∈ final.stores, a.toNat = start.toNat+160) ∧
      (∀ k ≤ decTrips iters, RegionZero size start (atTop V size start iters mem k).mem) ∧
      ∀ j, j+size.toNat/64 ≤ decTrips iters → ∀ line < size.toNat/64,
        ∃! k, (j ≤ k ∧ k < j+size.toNat/64) ∧ ∃ a, final.loads[k]? = some a ∧
          start.toNat+64*line ≤ a.toNat ∧ a.toNat+8 ≤ start.toNat+64*(line+1) := by
  have hregion : RegionFits size start := ⟨hpow,hpage,halloc⟩
  refine ⟨atTop V size start iters mem (decTrips iters),fun fuel hfuel => ?_,?_,?_,?_,?_,
    fun k _ => atTop_zero V iters hzero k,fun j hj line hline => ?_⟩
  · rw [tlbFencing,doWhile_dec State.rdi (by omega) (fun _ => rfl) (fun _ => rfl) _ fuel hfuel]
    rfl
  · rw [atTop_loads,List.length_map,List.length_range]
  · rw [atTop_stores V hregion iters hzero,List.length_replicate]
  · intro a ha
    rw [atTop_loads] at ha
    obtain ⟨k,-,rfl⟩ := List.mem_map.mp ha
    obtain ⟨line,-,hload,hline⟩ := loadAt_line hregion k
    omega
  · intro a ha
    rw [atTop_stores V hregion iters hzero] at ha
    rw [List.eq_of_mem_replicate ha,BitVec.toNat_add]
    change (start.toNat+160)%2^64 = start.toNat+160
    omega
  · obtain ⟨lines,hlines,hcoprime⟩ := size_lines hregion
    have hdiv : size.toNat/64 = lines := by omega
    refine (existsUnique_congr fun k => and_congr_right fun hk => ?_).mp
      (existsUnique_stride (hdiv ▸ hcoprime) j hline)
    obtain ⟨line',hline',hload,-⟩ := loadAt_line hregion k
    have hget : (atTop V size start iters mem (decTrips iters)).loads[k]? =
        some (loadAt size start k) := by
      rw [atTop_loads,List.getElem?_map,List.getElem?_range (by omega)]
      rfl
    simp only [hget,Option.some.injEq,exists_eq_left',hload,hline']
    omega

/-- The dependent variant on the smallest region, all zero from the start. -/
theorem tlbFencing_covers_page :
    ∃ final, (∀ fuel, decTrips (1500000 : Word) ≤ fuel →
        tlbFencing .dep 4096 0x200000 1500000 (fun _ => 0) fuel = some final) ∧
      final.loads.length = decTrips (1500000 : Word) ∧
      final.stores.length = decTrips (1500000 : Word) ∧
      (∀ a ∈ final.loads, 0x200000 ≤ a.toNat ∧ a.toNat+8 ≤ 0x200000+4096) ∧
      (∀ a ∈ final.stores, a.toNat = 0x200000+160) ∧
      (∀ k ≤ decTrips (1500000 : Word), RegionZero 4096 0x200000
        (atTop .dep 4096 0x200000 1500000 (fun _ => 0) k).mem) ∧
      ∀ j, j+4096/64 ≤ decTrips (1500000 : Word) → ∀ line < 4096/64,
        ∃! k, (j ≤ k ∧ k < j+4096/64) ∧ ∃ a, final.loads[k]? = some a ∧
          0x200000+64*line ≤ a.toNat ∧ a.toNat+8 ≤ 0x200000+64*(line+1) :=
  tlbFencing_covers .dep 4096 0x200000 1500000 (fun _ => 0) (by decide) (by decide) (by decide)
    (fun _ _ _ => rfl)

end UarchBench.TlbFencing
