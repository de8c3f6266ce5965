import UarchBench.Base.Countdown
import UarchBench.Kernels.Bandwidth

/-! The kernels with many independent accesses in flight: eight accesses with a large stride per
trip, and an index kept in 32-bit registers that wraps back to the start of the region. -/
namespace UarchBench.ParallelMem
open Base Bandwidth

/-- The distance of the accesses, 13 lines. -/
def stride : ℕ := 832

def UF : ℕ := 8

/-- One instance of `parallel_mem_bench`. -/
structure MemBench where
  benchName : String
  bytes : ℕ
  writes : Bool
  bytes_le : bytes ≤ 4

def storeBench : MemBench := ⟨"parallel_mem_bench_store",4,true,by decide⟩

def instances : List MemBench :=
  [⟨"parallel_mem_bench_load",1,false,by decide⟩,
   ⟨"parallel_mem_bench_prefetcht0",1,false,by decide⟩,
   ⟨"parallel_mem_bench_prefetcht1",1,false,by decide⟩,
   ⟨"parallel_mem_bench_prefetcht2",1,false,by decide⟩,
   ⟨"parallel_mem_bench_prefetchnta",1,false,by decide⟩,
   storeBench]

theorem instances_labels : (instances.map MemBench.benchName).Nodup := by decide

/-- The low half of a register. -/
def low (x : Word) : BitVec 32 := x.setWidth 32

/-- A write to the low half clears the upper one. -/
def zeroExtend (x : BitVec 32) : Word := x.setWidth 64

/-- `lea r9, [STRIDE * (2*UF-1) + eax]`, with the negated size in `rax`. -/
def r9 (size : Word) : Word :=
  zeroExtend (BitVec.ofNat 32 (stride*(2*UF-1))+low (-size))

/-- The unrolled accesses `[rdx + STRIDE * s]`. -/
def accesses (I : MemBench) (rdx : Word) : List Access :=
  (rep (fun s => s+1) UF 0).map fun s => ⟨rdx+BitVec.ofNat 64 (stride*s),I.bytes,I.writes⟩

structure State where
  /-- The index of the next access, relative to the region. -/
  rcx : Word
  rdx : Word
  rdi : Word
  flags : Flags
  trips : List (List Access)

/-- The index of the next trip: `cmovns` takes the overshoot if it is not negative. -/
def nextIndex (size rcx : Word) : Word :=
  let edx := low (rcx+r9 size)
  let ecx := low rcx+BitVec.ofNat 32 (stride*UF)
  zeroExtend (if edx.msb then ecx else edx)

/-- One trip of `.top`, with `rsi` at the start of the region. -/
def trip (I : MemBench) (size rsi : Word) (s : State) : State where
  rcx := nextIndex size s.rcx
  rdx := rsi+nextIndex size s.rcx
  rdi := s.rdi-1
  flags := subFlags s.rdi 1
  trips := s.trips ++ [accesses I s.rdx]

def entry (rsi iters : Word) : State := ⟨0,rsi,iters,⟨true,false,false⟩,[]⟩

/-- `parallel_mem_bench` on a region: the accesses of every trip. -/
def parallelMemBench (I : MemBench) (size start iters : Word) (fuel : ℕ) :
    Option (List (List Access)) :=
  (doWhile (fun s => some (trip I size start s)) (fun s => s.flags.jnz) fuel
    (entry start iters)).map (fun r => r.1.trips)

/-- The state at the top of trip `k`, counted from zero. -/
def atTop (I : MemBench) (size start iters : Word) (k : ℕ) : State :=
  (trip I size start)^[k] (entry start iters)

/-- The size as the registration chooses it: whole lines, room for the index to wrap, and small
enough for the sign of a 32-bit difference. -/
structure SizeFits (size : Word) : Prop where
  lines : size.toNat%64 = 0
  room : stride*(2*UF-1) ≤ size.toNat
  small : size.toNat < 2^30

/-- The invariant at the top of a trip. -/
structure IndexFits (size rcx : Word) : Prop where
  lines : rcx.toNat%64 = 0
  inside : rcx.toNat+7*stride+4 ≤ size.toNat

lemma r9_toNat {size : Word} (hsize : SizeFits size) :
    (r9 size).toNat = (stride*(2*UF-1)+(2^32-size.toNat))%2^32 := by
  have hroom := hsize.room
  have hsmall := hsize.small
  simp only [r9,zeroExtend,low,BitVec.toNat_setWidth,BitVec.toNat_add,BitVec.toNat_ofNat,
    BitVec.toNat_neg,stride,UF] at *
  omega

/-- The overshoot of the trip after the next one. -/
lemma overshoot_toNat {size rcx : Word} (hsize : SizeFits size) (hindex : IndexFits size rcx) :
    (low (rcx+r9 size)).toNat = (rcx.toNat+stride*(2*UF-1)+(2^32-size.toNat))%2^32 := by
  have hsmall := hsize.small
  have hinside := hindex.inside
  rw [low,BitVec.toNat_setWidth,BitVec.toNat_add,r9_toNat hsize]
  omega

/-- The wrap, decided one trip ahead: past the end the overshoot is the new index. -/
theorem nextIndex_toNat {size rcx : Word} (hsize : SizeFits size) (hindex : IndexFits size rcx) :
    (nextIndex size rcx).toNat =
      if size.toNat ≤ rcx.toNat+stride*(2*UF-1) then rcx.toNat+stride*(2*UF-1)-size.toNat
      else rcx.toNat+stride*UF := by
  have hroom := hsize.room
  have hsmall := hsize.small
  have hinside := hindex.inside
  have hover := overshoot_toNat hsize hindex
  have hmsb : (low (rcx+r9 size)).msb =
      decide (rcx.toNat+stride*(2*UF-1) < size.toNat) := by
    rw [BitVec.msb_eq_decide,hover,decide_eq_decide]
    simp only [stride,UF] at *
    omega
  simp only [nextIndex,hmsb,decide_eq_true_eq,zeroExtend,BitVec.toNat_setWidth]
  split_ifs with hpast hwrap hwrap
  · omega
  · rw [low,BitVec.toNat_add,BitVec.toNat_setWidth,BitVec.toNat_ofNat]
    simp only [stride,UF] at *
    omega
  · rw [hover]
    simp only [stride,UF] at *
    omega
  · omega

/-- One step keeps the invariant. -/
theorem nextIndex_fits {size rcx : Word} (hsize : SizeFits size) (hindex : IndexFits size rcx) :
    IndexFits size (nextIndex size rcx) := by
  have hnext := nextIndex_toNat hsize hindex
  obtain ⟨hlines,hinside⟩ := hindex
  obtain ⟨hsizeLines,hroom,hsmall⟩ := hsize
  by_cases hpast : size.toNat ≤ rcx.toNat+stride*(2*UF-1)
  · rw [if_pos hpast] at hnext
    simp only [stride,UF] at *
    exact ⟨by omega,by simp only [stride]; omega⟩
  · rw [if_neg hpast] at hnext
    simp only [stride,UF] at *
    exact ⟨by omega,by simp only [stride]; omega⟩

/-- A trip whose successor would run past the end is followed by a wrap. -/
theorem nextIndex_wraps {size rcx : Word} (hsize : SizeFits size) (hindex : IndexFits size rcx)
    (hpast : size.toNat < rcx.toNat+8*stride+7*stride+4) :
    (nextIndex size rcx).toNat < 8*stride := by
  have hnext := nextIndex_toNat hsize hindex
  obtain ⟨hlines,hinside⟩ := hindex
  have hsizeLines := hsize.lines
  rw [if_pos (by simp only [stride,UF] at *; omega)] at hnext
  simp only [stride,UF] at *
  omega

lemma atTop_succ (I : MemBench) (size start iters : Word) (k : ℕ) :
    atTop I size start iters (k+1) = trip I size start (atTop I size start iters k) :=
  Function.iterate_succ_apply' _ _ _

lemma atTop_rdx (I : MemBench) (size start iters : Word) (k : ℕ) :
    (atTop I size start iters k).rdx = start+(atTop I size start iters k).rcx := by
  cases k with
  | zero => simp [atTop,entry]
  | succ k => simp only [atTop_succ,trip]

/-- The invariant holds at the top of every trip, however many the run makes. -/
theorem atTop_fits (I : MemBench) {size : Word} (hsize : SizeFits size) (start iters : Word)
    (k : ℕ) : IndexFits size (atTop I size start iters k).rcx := by
  induction k with
  | zero =>
    have hroom := hsize.room
    simp only [stride,UF] at hroom
    exact ⟨rfl,by simp only [atTop,entry,Function.iterate_zero,id_eq,stride]; simp; omega⟩
  | succ k ih =>
    rw [atTop_succ]
    exact nextIndex_fits hsize ih

lemma accesses_within (I : MemBench) {size start rcx : Word} (hindex : IndexFits size rcx)
    (hregion : start.toNat+size.toNat ≤ 2^64) :
    ∀ a ∈ accesses I (start+rcx), a.Within start.toNat size.toNat := by
  intro a ha
  obtain ⟨s,hs,rfl⟩ := List.mem_map.mp ha
  have hs8 : s < 8 := by
    obtain ⟨j,hj,rfl⟩ := mem_rep_add.mp hs
    rw [UF] at hj
    omega
  have hinside := hindex.inside
  have hbytes := I.bytes_le
  have haddr : (start+rcx+BitVec.ofNat 64 (stride*s)).toNat =
      start.toNat+rcx.toNat+stride*s := by
    rw [BitVec.toNat_add,BitVec.toNat_add,BitVec.toNat_ofNat]
    simp only [stride] at *
    omega
  simp only [Access.Within,haddr,stride] at *
  omega

lemma atTop_trips (I : MemBench) (size start iters : Word) (k : ℕ) :
    (atTop I size start iters k).trips =
      (List.range k).map (fun j => accesses I (atTop I size start iters j).rdx) := by
  induction k with
  | zero => rfl
  | succ k ih => rw [atTop_succ,trip,ih,List.range_succ,List.map_append]; rfl

/-- The kernel returns after as many trips as `dec rdi` allows. -/
theorem parallelMemBench_run (I : MemBench) (size start iters : Word) (fuel : ℕ)
    (hfuel : decTrips iters ≤ fuel) :
    parallelMemBench I size start iters fuel =
      some ((List.range (decTrips iters)).map
        (fun j => accesses I (atTop I size start iters j).rdx)) := by
  rw [parallelMemBench,doWhile_dec State.rdi (by omega) (fun _ => rfl) (fun _ => rfl) _ fuel hfuel,
    Option.map_some,← atTop_trips]
  rfl

/-- For every iteration count the kernel stays inside the region; its index obeys the invariant at
the top of every trip and wraps when the next trip would run past the end. -/
theorem parallelMemBench_inside (I : MemBench) (size start iters : Word)
    (hlines : size.toNat%64 = 0) (hmin : 12480 ≤ size.toNat) (hmax : size.toNat < 2^30)
    (hregion : start.toNat+size.toNat ≤ 2^64) :
    (∃ trips, (∀ fuel, decTrips iters ≤ fuel →
        parallelMemBench I size start iters fuel = some trips) ∧
      trips.length = decTrips iters ∧
      ∀ accs ∈ trips, ∀ a ∈ accs, a.Within start.toNat size.toNat) ∧
    ∀ k, (atTop I size start iters k).rcx.toNat%64 = 0 ∧
      (atTop I size start iters k).rcx.toNat+7*832+4 ≤ size.toNat ∧
      (size.toNat < (atTop I size start iters k).rcx.toNat+8*832+7*832+4 →
        (atTop I size start iters (k+1)).rcx.toNat < 8*832) := by
  have hsize : SizeFits size := ⟨hlines,hmin,hmax⟩
  have hfits := atTop_fits I hsize start iters
  refine ⟨⟨_,parallelMemBench_run I size start iters,by simp,?_⟩,fun k => ?_⟩
  · intro accs haccs a ha
    obtain ⟨j,_,rfl⟩ := List.mem_map.mp haccs
    rw [atTop_rdx] at ha
    exact accesses_within I (hfits j) hregion a ha
  · refine ⟨(hfits k).lines,(hfits k).inside,fun hpast => ?_⟩
    rw [atTop_succ]
    exact nextIndex_wraps hsize (hfits k) hpast

/-- The store kernel on the smallest region. -/
theorem parallelMemBench_inside_store :
    (∃ trips, (∀ fuel, decTrips (1000000 : Word) ≤ fuel →
        parallelMemBench storeBench 12480 0x1000 1000000 fuel = some trips) ∧
      trips.length = decTrips (1000000 : Word) ∧
      ∀ accs ∈ trips, ∀ a ∈ accs, a.Within 0x1000 12480) ∧
    ∀ k, (atTop storeBench 12480 0x1000 1000000 k).rcx.toNat%64 = 0 ∧
      (atTop storeBench 12480 0x1000 1000000 k).rcx.toNat+7*832+4 ≤ 12480 ∧
      (12480 < (atTop storeBench 12480 0x1000 1000000 k).rcx.toNat+8*832+7*832+4 →
        (atTop storeBench 12480 0x1000 1000000 (k+1)).rcx.toNat < 8*832) :=
  parallelMemBench_inside storeBench 12480 0x1000 1000000 (by decide) (by decide) (by decide)
    (by decide)

end UarchBench.ParallelMem
