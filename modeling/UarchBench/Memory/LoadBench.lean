import UarchBench.Base.Countdown
import UarchBench.Memory.ShuffledRegion
import UarchBench.Registration.DeltaMaker

/-! Benchmarks that load from a shuffled region. The check on the loop count makes sure that the
serial one meets every line; the offset of the region is a `size_t`, for which the crossing
benchmarks pass a negative literal. -/
namespace UarchBench.LoadBench
open Base Registration ShuffledRegion CacheLine

/-- The arguments with which the provider of a benchmark calls `shuffled_region`. -/
structure RegionArgs where
  size : UInt64
  offset : UInt64
  deriving DecidableEq, Repr

section Make
variable {uld : Bool} {μ : Type}

abbrev LoadGroup (μ : Type) := BenchmarkGroup (BenchTemplate μ RegionArgs)

/-- `make_load_bench`; the group is the one that the maker points to. -/
def makeLoadBench (maker : DeltaMaker uld) (group : LoadGroup μ) (F : Method μ) (kib : Int32)
    (idPrefix descSuffix : String) (ops : UInt32) (offset : UInt64 := 0)
    (sizecheck : Bool := true) : Except String (LoadGroup μ) :=
  let accessedKib := maker.loopCount.toUInt64*UInt64.ofNat cacheLineSize/1024*ops.toUInt64
  if sizecheck ∧ accessedKib < kib.toInt64.toUInt64 then
    .error ("make_load_bench: for bench " ++ maker.parent.id ++ "/" ++ idPrefix ++ "-" ++
      toString kib ++ " accessed size kib is only " ++ toString accessedKib ++ " with kib " ++
      toString kib)
  else
    maker.make group F (idPrefix ++ "-" ++ toString kib) (toString kib ++ "-KiB " ++ descSuffix)
      ops ⟨(kib*1024).toInt64.toUInt64,offset⟩

/-- `MAKE_SERIALO`. -/
def makeSerialO (maker : DeltaMaker uld) (group : LoadGroup μ) (kib : Int32) (test : Method μ)
    (off : UInt64) : Except String (LoadGroup μ) :=
  makeLoadBench maker group test kib "serial-loads" "serial loads" 1 off

/-- The offset that `memory/load-serial-crossing` passes: -1 as a `size_t`. -/
def crossingOffset : UInt64 := (-1 : Int32).toInt64.toUInt64

end Make

structure SerialState where
  rdi : BitVec 64
  rsi : ℕ
  flags : Flags
  /-- The addresses of the loads so far. -/
  loads : List ℕ

/-- One trip of `serial_load_bench`. -/
def serialTrip (m : Memory) (s : SerialState) : SerialState :=
  ⟨s.rdi-1,nexts m 0 s.rsi,subFlags s.rdi 1,s.loads ++ [s.rsi]⟩

/-- `serial_load_bench`, which first loads the start of the region into `rsi`. -/
def serialLoadBench (m : Memory) (r : Region) (loopCount : BitVec 64) (fuel : ℕ) :
    Option SerialState :=
  (doWhile (fun s => some (serialTrip m s)) (fun s => s.flags.jnz) fuel
    ⟨loopCount,r.start,⟨false,false,false⟩,[]⟩).map Prod.fst

lemma serialTrip_iterate (m : Memory) (s : SerialState) (n : ℕ) :
    ((serialTrip m)^[n] s).rsi = (nexts m 0)^[n] s.rsi ∧
      ((serialTrip m)^[n] s).loads =
        s.loads ++ (List.range n).map (fun k => (nexts m 0)^[k] s.rsi) := by
  induction n with
  | zero => exact ⟨rfl,(List.append_nil _).symm⟩
  | succ n ih =>
    rw [Function.iterate_succ_apply',Function.iterate_succ_apply',serialTrip]
    refine ⟨by rw [ih.1],?_⟩
    rw [ih.1,ih.2,List.range_succ,List.map_append,List.append_assoc]
    rfl

/-- The addresses of the loads are the hops from the start of the region. -/
theorem serialLoadBench_loads (m : Memory) (r : Region) (loopCount : BitVec 64)
    (hpos : 0 < loopCount.toNat) {fuel : ℕ} (hfuel : loopCount.toNat ≤ fuel) :
    ∃ s, serialLoadBench m r loopCount fuel = some s ∧
      s.loads = (List.range loopCount.toNat).map (fun k => (nexts m 0)^[k] r.start) := by
  have htrips := decTrips_of_pos hpos
  have hrun : doWhile (fun s => some (serialTrip m s)) (fun s => s.flags.jnz) fuel
      ⟨loopCount,r.start,⟨false,false,false⟩,[]⟩ = some ((serialTrip m)^[decTrips loopCount]
        ⟨loopCount,r.start,⟨false,false,false⟩,[]⟩,decTrips loopCount) :=
    doWhile_dec SerialState.rdi (by omega) (fun _ => rfl) (fun _ => rfl) _ fuel
      (htrips.le.trans hfuel)
  refine ⟨_,by rw [serialLoadBench,hrun,Option.map_some],?_⟩
  rw [(serialTrip_iterate m _ _).2,List.nil_append,htrips]

/-- As many hops as lines meet every line of a single cycle. -/
lemma loads_cover {m : Memory} {storage lines hops : ℕ} (hcycle : SingleCycle m storage lines)
    (hfirst : lineAt storage 0 = storage) (hhops : lines ≤ hops) {i : ℕ} (hi : i < lines) :
    lineAt storage i ∈ (List.range hops).map (fun k => (nexts m 0)^[k] storage) := by
  have hturn := hcycle.visits 0 (by omega) 0 (by decide)
  rw [hfirst] at hturn
  have hmem := hturn.mem_iff.mpr (List.mem_map_of_mem (List.mem_range.mpr hi))
  obtain ⟨k,hk,heq⟩ := List.mem_map.mp hmem
  rw [← heq]
  exact List.mem_map_of_mem (List.mem_range.mpr ((List.mem_range.mp hk).trans_le hhops))

section Check
variable {uld : Bool} {μ : Type} {maker : DeltaMaker uld} {group group' : LoadGroup μ}
  {F : Method μ} {kib : Int32} {idPrefix descSuffix : String}

/-- The conversion of an `int` that is not negative to `size_t`. -/
lemma toNat_size_t {x : Int32} (h : 0 ≤ x.toInt) : x.toInt64.toUInt64.toNat = x.toInt.toNat := by
  have hnonneg : 0 ≤ x.toInt64 := by
    rw [Int64.le_iff_toInt_le,Int32.toInt_toInt64]
    exact h
  rw [Int64.toNat_toUInt64_of_le hnonneg,Int64.toNatClampNeg,Int32.toInt_toInt64]

lemma toInt_size (h : 0 ≤ kib.toInt) (h' : kib.toInt ≤ 400*1024) :
    (kib*1024).toInt = kib.toInt*1024 := by
  have hfactor : (1024 : Int32).toInt = 1024 := rfl
  rw [Int32.toInt_mul,hfactor]
  exact Int.bmod_eq_of_le (by omega) (by omega)

lemma toNat_size (h : 0 ≤ kib.toInt) (h' : kib.toInt ≤ 400*1024) :
    (kib*1024).toInt64.toUInt64.toNat = kib.toInt.toNat*1024 := by
  have hsize := toInt_size h h'
  rw [toNat_size_t (by omega),hsize]
  omega

lemma toNat_accessedKib (loopCount : UInt32) :
    (loopCount.toUInt64*UInt64.ofNat cacheLineSize/1024*(1 : UInt32).toUInt64).toNat =
      loopCount.toNat*64/1024 := by
  have hlt := loopCount.toNat_lt
  have hone : (1 : UInt32).toUInt64 = 1 := rfl
  rw [hone,UInt64.mul_one,UInt64.toNat_div,UInt64.toNat_mul,UInt32.toNat_toUInt64]
  change loopCount.toNat*64%2^64/1024 = _
  rw [Nat.mod_eq_of_lt (by omega)]

/-- A benchmark that is made hops over at least as many lines as its region has. -/
lemma loopCount_of_make (hkib : 0 ≤ kib.toInt)
    (h : makeLoadBench maker group F kib idPrefix descSuffix 1 = .ok group') :
    kib.toInt.toNat*16 ≤ maker.loopCount.toNat := by
  rw [makeLoadBench] at h
  split_ifs at h with hcheck
  have hle : ¬ maker.loopCount.toNat*64/1024 < kib.toInt.toNat := by
    rw [← toNat_accessedKib,← toNat_size_t hkib]
    exact fun hlt => hcheck ⟨rfl,UInt64.lt_iff_toNat_lt.mpr hlt⟩
  omega

/-- The benchmark that is added runs with the loop count of the maker, on a region of as many
KiB as its name says. -/
lemma makeLoadBench_added (h : makeLoadBench maker group F kib idPrefix descSuffix 1 = .ok group') :
    ∃ bench, group'.benches = group.benches ++ [bench] ∧
      bench.impl.loopCount = maker.loopCount.toUInt64 ∧
      bench.impl.argProvider = ⟨(kib*1024).toInt64.toUInt64,0⟩ := by
  rw [makeLoadBench] at h
  split_ifs at h
  exact ⟨_,BenchmarkGroup.add_ok h,rfl,rfl⟩

end Check

/-- What is known of `std::shuffle`. -/
def Permutes (shuffle : List ℕ → List ℕ) : Prop := ∀ l, (shuffle l).Perm l

lemma kib_region {n : ℕ} (h : n ≤ 400*1024) : n*1024/cacheLineSize = n*16 ∧
    n*1024%cacheLineSize = 0 ∧ n*1024 ≤ maxShuffledRegionSize := by
  rw [cacheLineSize,maxShuffledRegionSize]
  omega

/-- Without an offset the region starts with the storage. -/
lemma shuffledRegion_returns_zero {shuffle : List ℕ → List ℕ} {storageBase size : ℕ}
    (hmul : size%cacheLineSize = 0) (hlines : 1 ≤ size/cacheLineSize)
    (hmax : size ≤ maxShuffledRegionSize)
    (hbase : storageBase+maxShuffledRegionSize ≤ addressSpace)
    (hshuffle : (shuffle (List.range (size/cacheLineSize))).Perm
      (List.range (size/cacheLineSize))) (m : Memory) {fuel : ℕ}
    (hfuel : size/cacheLineSize ≤ fuel) :
    shuffledRegion shuffle storageBase size 0 m fuel =
      .ok (⟨size,storageBase⟩,build shuffle storageBase size m) := by
  have hpos : 0 < maxShuffledRegionSize := by decide
  have hstorage : (storageBase+0)%addressSpace = storageBase := Nat.mod_eq_of_lt (by omega)
  have hreturns : shuffledRegion shuffle storageBase size 0 m fuel =
      .ok (⟨size,(storageBase+0)%addressSpace⟩,
        build shuffle ((storageBase+0)%addressSpace) size m) :=
    shuffledRegion_returns (le_trans (Nat.mod_le _ _) hmax) hmul hlines
      (by rw [hstorage]; omega) hshuffle m hfuel
  rwa [hstorage] at hreturns

/-- A benchmark that passes the size check loads from every line of its region. -/
theorem serialLoadBench_covers {uld : Bool} {μ : Type} (maker : DeltaMaker uld)
    (group group' : LoadGroup μ) (F : Method μ) (kib : Int32) (idPrefix descSuffix : String)
    (hkib : 1 ≤ kib.toInt) (hkib' : kib.toInt ≤ 400*1024)
    (hmake : makeLoadBench maker group F kib idPrefix descSuffix 1 = .ok group')
    (shuffle : List ℕ → List ℕ) (hshuffle : Permutes shuffle) (storageBase : ℕ)
    (hbase : storageBase+maxShuffledRegionSize ≤ addressSpace) (m : Memory) :
    ∃ bench region built, group'.benches = group.benches ++ [bench] ∧
      region = ⟨kib.toInt.toNat*1024,storageBase⟩ ∧
      (∀ fuel, kib.toInt.toNat*16 ≤ fuel →
        shuffledRegion shuffle storageBase bench.impl.argProvider.size.toNat
          bench.impl.argProvider.offset.toNat m fuel = .ok (region,built)) ∧
      ∀ fuel, maker.loopCount.toNat ≤ fuel →
        ∃ s, serialLoadBench built region bench.impl.loopCount.toBitVec fuel = some s ∧
          ∀ i < kib.toInt.toNat*16, storageBase+cacheLineSize*i ∈ s.loads := by
  obtain ⟨bench,hbenches,hloop,hargs⟩ := makeLoadBench_added hmake
  have hcount := loopCount_of_make (by omega) hmake
  obtain ⟨hlines,hmul,hmax⟩ := kib_region (n := kib.toInt.toNat) (by omega)
  have haddr : storageBase+kib.toInt.toNat*1024 ≤ addressSpace :=
    (Nat.add_le_add_left hmax storageBase).trans hbase
  have hcycle := build_singleCycle hmul haddr (hshuffle _) m
  rw [hlines] at hcycle
  have hline : ∀ i < kib.toInt.toNat*16, lineAt storageBase i = storageBase+cacheLineSize*i := by
    intro i hi
    refine lineAt_eq (le_trans (Nat.add_le_add_left ?_ storageBase) haddr) hi
    rw [← hlines,Nat.mul_div_cancel' (Nat.dvd_of_mod_eq_zero hmul)]
  refine ⟨bench,⟨kib.toInt.toNat*1024,storageBase⟩,
    build shuffle storageBase (kib.toInt.toNat*1024) m,hbenches,rfl,fun fuel hfuel => ?_,
    fun fuel hfuel => ?_⟩
  · have hreturns := shuffledRegion_returns_zero hmul (by omega) hmax hbase (hshuffle _) m
      (hlines.trans_le hfuel)
    rw [hargs,toNat_size (by omega) hkib']
    exact hreturns
  · have hloops : bench.impl.loopCount.toBitVec.toNat = maker.loopCount.toNat := by
      rw [hloop]
      exact UInt32.toNat_toUInt64 _
    obtain ⟨s,hs,hloads⟩ := serialLoadBench_loads
      (build shuffle storageBase (kib.toInt.toNat*1024) m) ⟨kib.toInt.toNat*1024,storageBase⟩
      bench.impl.loopCount.toBitVec (by omega) (hloops.trans_le hfuel)
    refine ⟨s,hs,fun i hi => ?_⟩
    rw [hloads,hloops,← hline i hi]
    exact loads_cover hcycle (hline 0 (by omega)) hcount hi

/-- Sixteen hops for the sixteen lines of one KiB. -/
theorem serialLoadBench_covers_kib : ∃ built s,
    serialLoadBench built ⟨1024,4096⟩ 16 16 = some s ∧
      ∀ i < 16, 4096+cacheLineSize*i ∈ s.loads := by
  obtain ⟨bench,region,built,hbenches,rfl,-,hrun⟩ := serialLoadBench_covers
    (DeltaMaker.construct false ⟨"memory/load-serial","Serial loads"⟩ 16)
    ⟨⟨"memory/load-serial","Serial loads"⟩,[]⟩
    ⟨⟨"memory/load-serial","Serial loads"⟩,[(DeltaMaker.construct false
      ⟨"memory/load-serial","Serial loads"⟩ 16).makeOnly .inlinedEmpty "serial-loads-1"
      "1-KiB serial loads" 1 ⟨1024,0⟩]⟩
    (Method.inlinedEmpty : Method Empty) 1 "serial-loads" "serial loads" (by decide) (by decide)
    rfl id (fun l => List.Perm.refl l) 4096 (by decide) (fun _ => 0)
  obtain rfl := List.singleton_inj.mp (hbenches.symm.trans (List.nil_append _))
  exact ⟨built,hrun 16 (by decide)⟩

/-- The bytes that `shuffled_region` fills and links. -/
def filledRegion (storageBase size offset : ℕ) : Region :=
  ⟨size,(storageBase+offset)%addressSpace⟩

/-- The region lies inside the bytes requested from `new_huge_ptr`. -/
def InsideStorage (storageBase : ℕ) (r : Region) : Prop :=
  storageBase ≤ r.start ∧ r.start+r.size ≤ storageBase+maxShuffledRegionSize

section Offset
variable {shuffle : List ℕ → List ℕ} {storageBase size offset : ℕ}

lemma shuffledRegion_filled {m m' : Memory} {fuel : ℕ} {r : Region}
    (h : shuffledRegion shuffle storageBase size offset m fuel = .ok (r,m')) :
    r = filledRegion storageBase size offset := by
  rw [shuffledRegion] at h
  split_ifs at h
  dsimp only at h
  split at h
  · cases h
  · split_ifs at h
    cases h
    rfl

variable (hbase : storageBase+maxShuffledRegionSize ≤ addressSpace) (hpos : 0 < size)
  (hmax : (size+offset)%addressSpace ≤ maxShuffledRegionSize)
include hbase hpos hmax

lemma filledRegion_start (hwrap : size+offset < addressSpace) :
    (storageBase+offset)%addressSpace = storageBase+offset := by
  rw [Nat.mod_eq_of_lt hwrap] at hmax
  exact Nat.mod_eq_of_lt (by omega)

/-- Without a wrap the sum in the assertion bounds the region. -/
lemma filledRegion_inside (hwrap : size+offset < addressSpace) :
    InsideStorage storageBase (filledRegion storageBase size offset) := by
  have hstart := filledRegion_start hbase hpos hmax hwrap
  rw [Nat.mod_eq_of_lt hwrap] at hmax
  simp only [InsideStorage,filledRegion,hstart]
  exact ⟨Nat.le_add_right _ _,by omega⟩

omit hpos hmax in
/-- The start wraps with the sum: the region begins below the storage, or ends beyond it. -/
lemma filledRegion_outside (hoffset : offset < addressSpace)
    (hwrap : addressSpace ≤ size+offset) :
    ¬ InsideStorage storageBase (filledRegion storageBase size offset) := by
  rintro ⟨hlow,hhigh⟩
  simp only [filledRegion] at hlow hhigh
  by_cases hlt : storageBase+offset < addressSpace
  · rw [Nat.mod_eq_of_lt hlt] at hhigh
    have hlarge : maxShuffledRegionSize < addressSpace := by decide
    omega
  · rw [Nat.mod_eq_sub_mod (by omega),Nat.mod_eq_of_lt (by omega)] at hlow
    omega

end Offset

/-- The region is filled inside the storage exactly if the sum in the first assertion does not
wrap. The call then returns it, having written nowhere else. -/
theorem shuffledRegion_inside_iff (shuffle : List ℕ → List ℕ) (storageBase size offset : ℕ)
    (hbase : storageBase+maxShuffledRegionSize ≤ addressSpace) (hoffset : offset < addressSpace)
    (hmax : (size+offset)%addressSpace ≤ maxShuffledRegionSize)
    (hmul : size%cacheLineSize = 0) (hlines : 0 < size/cacheLineSize) :
    (∀ m fuel r m', shuffledRegion shuffle storageBase size offset m fuel = .ok (r,m') →
      r = filledRegion storageBase size offset) ∧
    (InsideStorage storageBase (filledRegion storageBase size offset) ↔
      size+offset < addressSpace) ∧
    (size+offset < addressSpace → Permutes shuffle → ∀ m fuel, size/cacheLineSize ≤ fuel →
      ∃ m', shuffledRegion shuffle storageBase size offset m fuel =
          .ok (filledRegion storageBase size offset,m') ∧
        ∀ x, x < storageBase ∨ storageBase+maxShuffledRegionSize ≤ x → m' x = m x) := by
  have hpos : 0 < size := Nat.pos_of_ne_zero (by
    rintro rfl
    exact absurd hlines (by decide))
  refine ⟨fun m fuel r m' h => shuffledRegion_filled h,⟨fun hinside => ?_,
    filledRegion_inside hbase hpos hmax⟩,fun hwrap hshuffle m fuel hfuel => ?_⟩
  · by_contra hwrap
    exact filledRegion_outside hbase hoffset (not_lt.mp hwrap) hinside
  · obtain ⟨hlow,hhigh⟩ := filledRegion_inside hbase hpos hmax hwrap
    simp only [filledRegion] at hlow hhigh
    have haddr : (storageBase+offset)%addressSpace+size ≤ addressSpace := hhigh.trans hbase
    refine ⟨_,shuffledRegion_returns hmax hmul hlines haddr (hshuffle _) m hfuel,fun x hx => ?_⟩
    exact build_outside shuffle m hmul haddr (hshuffle _) (by omega)

theorem shuffledRegion_inside_offset :
    InsideStorage 4096 (filledRegion 4096 192 60) ↔ 192+60 < addressSpace :=
  (shuffledRegion_inside_iff List.reverse 4096 192 60 (by decide) (by decide) (by decide)
    (by decide) (by decide)).2.1

/-- The smallest region of `memory/load-serial-crossing` meets the assertions, and begins one byte
below the storage. -/
theorem crossing_outside_storage : ∃ group' bench,
    makeSerialO (DeltaMaker.construct false
        ⟨"memory/load-serial-crossing","Cacheline crossing loads from fixed-size regions"⟩ 100000)
      ⟨⟨"memory/load-serial-crossing","Cacheline crossing loads from fixed-size regions"⟩,[]⟩ 8
      (Method.method "serial_load_bench") crossingOffset = .ok group' ∧
    group'.benches = [bench] ∧
    (bench.impl.argProvider.size.toNat+bench.impl.argProvider.offset.toNat)%addressSpace ≤
      maxShuffledRegionSize ∧
    bench.impl.argProvider.size.toNat%cacheLineSize = 0 ∧
    0 < bench.impl.argProvider.size.toNat/cacheLineSize ∧
    ¬ InsideStorage (2^21) (filledRegion (2^21) bench.impl.argProvider.size.toNat
      bench.impl.argProvider.offset.toNat) :=
  ⟨_,_,rfl,rfl,by decide,by decide,by decide,fun h => absurd h.1 (by decide)⟩

end UarchBench.LoadBench
