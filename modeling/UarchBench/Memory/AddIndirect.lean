import UarchBench.Base.DoWhile
import UarchBench.Memory.ShuffledRegion

/-! Sums of array elements whose indexes are read from another array: one index at a time, or two
of them in one 64-bit word that a shift and a mask take apart. -/
namespace UarchBench.AddIndirect
open Base

/-- `&array[i]` for an array of 32-bit values. -/
def elementAt (array i : ℕ) : ℕ := (array+4*i)%addressSpace

/-- `array[i]`. -/
def element (m : Memory) (array i : ℕ) : ℕ := m.load (elementAt array i) 4

/-- The bytes that one access reads. -/
structure Access where
  address : ℕ
  bytes : ℕ
  deriving DecidableEq, Repr

structure State where
  i : UInt64
  sum1 : UInt32
  sum2 : UInt32
  /-- The accesses to `offsets` so far. -/
  offsetReads : List Access
  /-- The addresses of the elements of `data` that have been read. -/
  elements : List ℕ

/-- The two offsets of a trip, and how they have been read. -/
structure Offsets where
  first : ℕ
  second : ℕ
  reads : List Access

/-- `offsets[i - 1]` and `offsets[i - 2]`. -/
def plainOffsets (m : Memory) (offsets : ℕ) (i : UInt64) : Offsets :=
  ⟨element m offsets (i-1).toNat,element m offsets (i-2).toNat,
    [⟨elementAt offsets (i-1).toNat,4⟩,⟨elementAt offsets (i-2).toNat,4⟩]⟩

/-- The word copied from `offsets + i - 2`, and its two halves. -/
def shiftOffsets (m : Memory) (offsets : ℕ) (i : UInt64) : Offsets :=
  let twooffsets := m.load (elementAt offsets (i-2).toNat) 8
  ⟨twooffsets >>> 32,twooffsets &&& 0xFFFFFFFF,[⟨elementAt offsets (i-2).toNat,8⟩]⟩

/-- One trip of either loop, for its way to get the offsets. -/
def trip (m : Memory) (data : ℕ) (fetch : UInt64 → Offsets) (s : State) : State :=
  let o := fetch s.i
  { i := s.i-2
    sum1 := s.sum1+UInt32.ofNat (element m data o.first)
    sum2 := s.sum2+UInt32.ofNat (element m data o.second)
    offsetReads := s.offsetReads ++ o.reads
    elements := s.elements ++ [elementAt data o.first,elementAt data o.second] }

/-- The sum of a finished loop, with what has been read. -/
structure Outcome where
  sum : UInt32
  offsetReads : List Access
  elements : List ℕ
  deriving DecidableEq

def addLoop (m : Memory) (data : ℕ) (fetch : UInt64 → Offsets) (len : UInt64) (fuel : ℕ) :
    Option Outcome :=
  (doWhile (fun s => some (trip m data fetch s)) (fun s => s.i ≠ 0) fuel ⟨len,0,0,[],[]⟩).map
    (fun r => ⟨r.1.sum1+r.1.sum2,r.1.offsetReads,r.1.elements⟩)

/-- `add_indirect_inner`. -/
def addIndirectInner (m : Memory) (data offsets : ℕ) (len : UInt64) (fuel : ℕ) :
    Except Failure Outcome :=
  if ¬ (len ≥ 2 ∧ len%2 = 0) then .error (.assertion "len >= 2 && len % 2 == 0")
  else
    match addLoop m data (plainOffsets m offsets) len fuel with
    | none => .error .outOfFuel
    | some out => .ok out

/-- `add_indirect_shift_inner`. -/
def addIndirectShiftInner (m : Memory) (data offsets : ℕ) (len : UInt64) (fuel : ℕ) :
    Except Failure Outcome :=
  match addLoop m data (shiftOffsets m offsets) len fuel with
  | none => .error .outOfFuel
  | some out => .ok out

section Sums
variable (m : Memory) (data offsets : ℕ)

/-- The sum of the first elements, as a number. -/
def total (n : ℕ) : ℕ :=
  ((List.range n).map (fun j => element m data (element m offsets j))).sum

/-- The addresses of the first elements, from the last one to the first. -/
def elementsBelow (n : ℕ) : List ℕ :=
  (List.range n).reverse.map (fun j => elementAt data (element m offsets j))

lemma total_add_two (n : ℕ) : total m data offsets (n+2) =
    total m data offsets n+element m data (element m offsets n)+
      element m data (element m offsets (n+1)) := by
  simp only [total,List.range_succ,List.map_append,List.map_cons,List.map_nil,List.sum_append,
    List.sum_singleton]

lemma elementsBelow_add_two (n : ℕ) : elementsBelow m data offsets (n+2) =
    [elementAt data (element m offsets (n+1)),elementAt data (element m offsets n)] ++
      elementsBelow m data offsets n := by
  simp [elementsBelow,List.range_succ]

end Sums

section Fetch
variable {m : Memory} {offsets : ℕ} {len : UInt64}

/-- The two offsets below an index, read inside the first `len` offsets. -/
structure Fetches (m : Memory) (offsets : ℕ) (len : UInt64) (fetch : UInt64 → Offsets) :
    Prop where
  first : ∀ i, 2 ≤ i.toNat → i ≤ len → (fetch i).first = element m offsets (i.toNat-1)
  second : ∀ i, 2 ≤ i.toNat → i ≤ len → (fetch i).second = element m offsets (i.toNat-2)
  reads : ∀ i, 2 ≤ i.toNat → i ≤ len → ∀ r ∈ (fetch i).reads,
    offsets ≤ r.address ∧ r.address+r.bytes ≤ offsets+4*len.toNat

lemma toNat_sub_one {i : UInt64} (h : 2 ≤ i.toNat) : (i-1).toNat = i.toNat-1 :=
  UInt64.toNat_sub_of_le _ _ (UInt64.le_iff_toNat_le.mpr (le_trans (by decide) h))

lemma toNat_sub_two {i : UInt64} (h : 2 ≤ i.toNat) : (i-2).toNat = i.toNat-2 :=
  UInt64.toNat_sub_of_le _ _ (UInt64.le_iff_toNat_le.mpr h)

variable (hspace : offsets+4*len.toNat ≤ addressSpace)
include hspace

lemma elementAt_offsets {j : ℕ} (hj : j < len.toNat) : elementAt offsets j = offsets+4*j :=
  Nat.mod_eq_of_lt (by omega)

theorem plainOffsets_fetches : Fetches m offsets len (plainOffsets m offsets) := by
  refine ⟨fun i hi _ => ?_,fun i hi _ => ?_,fun i hi hle r hr => ?_⟩
  · rw [plainOffsets,toNat_sub_one hi]
  · rw [plainOffsets,toNat_sub_two hi]
  · have hle' : i.toNat ≤ len.toNat := UInt64.le_iff_toNat_le.mp hle
    rw [plainOffsets,toNat_sub_one hi,toNat_sub_two hi,elementAt_offsets hspace (by omega),
      elementAt_offsets hspace (by omega)] at hr
    rcases List.mem_pair.mp hr with rfl | rfl
    · dsimp only
      omega
    · dsimp only
      omega

/-- The halves of the word are the element at its address and the next one. -/
theorem shiftOffsets_fetches : Fetches m offsets len (shiftOffsets m offsets) := by
  have hword : ∀ i : UInt64, 2 ≤ i.toNat → i ≤ len →
      m.load (elementAt offsets (i-2).toNat) 8 =
        element m offsets (i.toNat-2)+2^32*element m offsets (i.toNat-1) := by
    intro i hi hle
    have hle' : i.toNat ≤ len.toNat := UInt64.le_iff_toNat_le.mp hle
    rw [toNat_sub_two hi,element,element,elementAt_offsets hspace (by omega),
      elementAt_offsets hspace (by omega),Memory.load_append m _ 4 4,
      show offsets+4*(i.toNat-1) = offsets+4*(i.toNat-2)+4 by omega]
    rfl
  have hlow : ∀ i : UInt64, element m offsets (i.toNat-2) < 2^32 := fun i => Memory.load_lt m _ 4
  refine ⟨fun i hi hle => ?_,fun i hi hle => ?_,fun i hi hle r hr => ?_⟩
  · have hlt := hlow i
    rw [shiftOffsets,hword i hi hle]
    dsimp only
    rw [Nat.shiftRight_eq_div_pow]
    omega
  · have hlt := hlow i
    rw [shiftOffsets,hword i hi hle]
    dsimp only
    rw [show 0xFFFFFFFF = 2^32-1 from rfl,Nat.and_two_pow_sub_one_eq_mod]
    omega
  · have hle' : i.toNat ≤ len.toNat := UInt64.le_iff_toNat_le.mp hle
    rw [shiftOffsets,toNat_sub_two hi,elementAt_offsets hspace (by omega)] at hr
    obtain rfl := List.mem_singleton.mp hr
    dsimp only
    omega

end Fetch

section Loop
variable {m : Memory} {data offsets : ℕ} {len : UInt64} {fetch : UInt64 → Offsets}
  (hfetch : Fetches m offsets len fetch)

/-- After some trips the elements from the index on are in the sums. -/
structure Summed (m : Memory) (data offsets : ℕ) (len : UInt64) (s : State) : Prop where
  even : s.i.toNat%2 = 0
  bound : s.i ≤ len
  sum : s.sum1+s.sum2+UInt32.ofNat (total m data offsets s.i.toNat) =
    UInt32.ofNat (total m data offsets len.toNat)
  elements : s.elements ++ elementsBelow m data offsets s.i.toNat =
    elementsBelow m data offsets len.toNat
  reads : ∀ r ∈ s.offsetReads, offsets ≤ r.address ∧ r.address+r.bytes ≤ offsets+4*len.toNat

include hfetch

lemma trip_summed {s : State} (hs : Summed m data offsets len s) (hpos : 2 ≤ s.i.toNat) :
    Summed m data offsets len (trip m data fetch s) ∧
      (trip m data fetch s).i.toNat = s.i.toNat-2 := by
  obtain ⟨heven,hbound,hsum,helements,hreads⟩ := hs
  have hnext : (s.i-2).toNat = s.i.toNat-2 := toNat_sub_two hpos
  obtain ⟨n,hn⟩ : ∃ n, s.i.toNat = n+2 := ⟨s.i.toNat-2,by omega⟩
  have hfirst := hfetch.first s.i hpos hbound
  have hsecond := hfetch.second s.i hpos hbound
  have hinside := hfetch.reads s.i hpos hbound
  rw [hn] at hfirst hsecond hsum helements hnext heven
  rw [Nat.add_sub_cancel] at hsecond hnext
  rw [show n+2-1 = n+1 from rfl] at hfirst
  rw [total_add_two] at hsum
  rw [elementsBelow_add_two] at helements
  have hi : (trip m data fetch s).i.toNat = n := hnext
  refine ⟨⟨?_,?_,?_,?_,List.forall_mem_append.mpr ⟨hreads,hinside⟩⟩,by rw [hi,hn]; rfl⟩
  · rw [hi]
    omega
  · refine UInt64.le_iff_toNat_le.mpr ?_
    have hbound' := UInt64.le_iff_toNat_le.mp hbound
    rw [hi]
    omega
  · rw [hi,← hsum,trip]
    dsimp only
    rw [hfirst,hsecond,UInt32.ofNat_add,UInt32.ofNat_add]
    ac_rfl
  · rw [hi,← helements,trip]
    dsimp only
    rw [hfirst,hsecond,List.append_assoc]

/-- A trip ends the loop at index zero, or leaves at least two elements. -/
lemma trip_again {s : State} (hs : Summed m data offsets len s) (hpos : 2 ≤ s.i.toNat) :
    (decide ((trip m data fetch s).i ≠ 0) = true ∧
        (Summed m data offsets len (trip m data fetch s) ∧
          2 ≤ (trip m data fetch s).i.toNat) ∧
        (trip m data fetch s).i.toNat < s.i.toNat) ∨
      (decide ((trip m data fetch s).i ≠ 0) = false ∧
        Summed m data offsets len (trip m data fetch s) ∧
        (trip m data fetch s).i.toNat = 0) := by
  obtain ⟨hnext,hi⟩ := trip_summed hfetch hs hpos
  have heven := hnext.even
  by_cases hzero : (trip m data fetch s).i = 0
  · exact Or.inr ⟨by simp [hzero],hnext,by rw [hzero]; rfl⟩
  · have hne : (trip m data fetch s).i.toNat ≠ 0 := fun h => hzero (UInt64.toNat_inj.mp h)
    exact Or.inl ⟨by simp [hzero],⟨hnext,by omega⟩,by omega⟩

/-- The loop ends at index zero with every element in the sums. -/
lemma addLoop_sums (data : ℕ) (heven : len.toNat%2 = 0) (hpos : 2 ≤ len.toNat) {fuel : ℕ}
    (hfuel : len.toNat < fuel) :
    ∃ out, addLoop m data fetch len fuel = some out ∧
      out.sum = UInt32.ofNat (total m data offsets len.toNat) ∧
      out.elements = elementsBelow m data offsets len.toNat ∧
      ∀ r ∈ out.offsetReads, offsets ≤ r.address ∧ r.address+r.bytes ≤ offsets+4*len.toNat := by
  have hstart : Summed m data offsets len ⟨len,0,0,[],[]⟩ :=
    ⟨heven,UInt64.le_refl len,UInt32.zero_add _,rfl,fun r hr => absurd hr List.not_mem_nil⟩
  obtain ⟨⟨s,n⟩,hs,⟨-,-,hsum,helements,hreads⟩,hzero⟩ :
      ∃ r, doWhile (fun s => some (trip m data fetch s)) (fun s => s.i ≠ 0) fuel
          ⟨len,0,0,[],[]⟩ = some r ∧
        Summed m data offsets len r.1 ∧ r.1.i.toNat = 0 :=
    doWhile_rule (fun s => Summed m data offsets len s ∧ 2 ≤ s.i.toNat) (fun s => s.i.toNat)
      (fun s => Summed m data offsets len s ∧ s.i.toNat = 0)
      (fun s hs => ⟨_,rfl,trip_again hfetch hs.left hs.right⟩) ⟨hstart,hpos⟩ hfuel
  dsimp only at hsum helements hreads hzero
  rw [hzero] at hsum helements
  refine ⟨_,by rw [addLoop,hs]; rfl,?_,?_,hreads⟩
  · rw [← hsum]
    exact (UInt32.add_zero _).symm
  · rw [← helements]
    exact (List.append_nil _).symm

end Loop

/-- Both functions end, read the same elements of `data` and stay within the offsets, and both
return the sum of these elements. -/
theorem addIndirect_agree (m : Memory) (data offsets dataLen : ℕ) (len : UInt64)
    (heven : len%2 = 0) (hlen : 2 ≤ len) (hspace : offsets+4*len.toNat ≤ addressSpace)
    (hdata : data+4*dataLen ≤ addressSpace)
    (hinside : ∀ j < len.toNat, element m offsets j < dataLen) :
    ∀ fuel, len.toNat < fuel → ∃ plain shift,
      addIndirectInner m data offsets len fuel = .ok plain ∧
      addIndirectShiftInner m data offsets len fuel = .ok shift ∧
      plain.elements = shift.elements ∧
      plain.elements = (List.range len.toNat).reverse.map
        (fun j => data+4*element m offsets j) ∧
      plain.sum = shift.sum ∧
      plain.sum = UInt32.ofNat
        ((List.range len.toNat).map (fun j => element m data (element m offsets j))).sum ∧
      ∀ r ∈ plain.offsetReads ++ shift.offsetReads,
        offsets ≤ r.address ∧ r.address+r.bytes ≤ offsets+4*len.toNat := by
  intro fuel hfuel
  have heven' : len.toNat%2 = 0 := congrArg UInt64.toNat heven
  have hpos : 2 ≤ len.toNat := UInt64.le_iff_toNat_le.mp hlen
  obtain ⟨plain,hplain,hsum,helements,hreads⟩ :=
    addLoop_sums (plainOffsets_fetches hspace) data heven' hpos hfuel
  obtain ⟨shift,hshift,hsum',helements',hreads'⟩ :=
    addLoop_sums (shiftOffsets_fetches hspace) data heven' hpos hfuel
  refine ⟨plain,shift,?_,?_,helements.trans helements'.symm,?_,hsum.trans hsum'.symm,hsum,
    List.forall_mem_append.mpr ⟨hreads,hreads'⟩⟩
  · rw [addIndirectInner,if_neg (not_not.mpr ⟨hlen,heven⟩),hplain]
  · rw [addIndirectShiftInner,hshift]
  · rw [helements,elementsBelow]
    refine List.map_congr_left (fun j hj => ?_)
    have hj' := hinside j (List.mem_range.mp (List.mem_reverse.mp hj))
    exact Nat.mod_eq_of_lt (by omega)

/-- The offsets 1, 0, 2, 1 in front of bytes that are all 7. -/
def fourOffsets : Memory := Memory.store (fun _ => 7) 4096 16 (1+2*2^64+2^96)

theorem addIndirect_agree_four : ∃ plain shift,
    addIndirectInner fourOffsets 65536 4096 4 5 = .ok plain ∧
      addIndirectShiftInner fourOffsets 65536 4096 4 5 = .ok shift ∧
      plain.elements = shift.elements ∧ plain.sum = shift.sum := by
  obtain ⟨plain,shift,hplain,hshift,helements,-,hsum,-⟩ :=
    addIndirect_agree fourOffsets 65536 4096 3 4 (by decide) (by decide) (by decide) (by decide)
      (by decide) 5 (by decide)
  exact ⟨plain,shift,hplain,hshift,helements,hsum⟩

end UarchBench.AddIndirect
