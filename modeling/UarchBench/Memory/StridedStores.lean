import UarchBench.Base.Loop
import UarchBench.Base.Stride
import UarchBench.Memory.ShuffledRegion

/-! Stores with a stride, four in a trip: only the first address of a trip is masked, and the
other three follow it without a check. -/
namespace UarchBench.StridedStores
open Base

/-- `mem_args`. -/
structure MemArgs where
  region : ℕ
  stride : ℕ
  mask : ℕ

/-- The arguments that the registration builds for a stride and a size. -/
def stridedArgs (region stride regionBytes : ℕ) : MemArgs := ⟨region,stride,regionBytes-1⟩

structure State where
  i : ℕ
  mem : Memory
  /-- The addresses of the stores so far. -/
  stores : List ℕ

/-- `*(T *)base = 0` for an element of the given size. -/
def storeZero (size base : ℕ) (s : State) : State :=
  { s with mem := s.mem.store base size 0, stores := s.stores ++ [base] }

def trip (args : MemArgs) (size : ℕ) (s : State) : State :=
  let offset := s.i*args.stride%addressSpace &&& args.mask
  let base := (args.region+offset)%addressSpace
  let base1 := (base+args.stride)%addressSpace
  let base2 := (base1+args.stride)%addressSpace
  let base3 := (base2+args.stride)%addressSpace
  let s := storeZero size base3 (storeZero size base2 (storeZero size base1
    (storeZero size base s)))
  { s with i := (s.i+4)%addressSpace }

/-- The result of the function, and what it leaves behind. -/
structure Outcome where
  result : Int64
  mem : Memory
  stores : List ℕ

/-- `strided_stores` for elements of the given size. -/
def stridedStores (size iters : ℕ) (args : MemArgs) (m : Memory) (fuel : ℕ) : Option Outcome :=
  (whileLoop (fun s => decide (s.i < iters)) (trip args size) fuel ⟨0,m,[]⟩).map
    (fun s => ⟨(s.mem args.region).toInt8.toInt64,s.mem,s.stores⟩)

/-- The address of store `i` when the stores go around `slots` places of the region. -/
def slotAt (region stride slots i : ℕ) : ℕ := region+stride*(i%slots)

/-- A trip starts at a multiple of four slots, so that it ends before the region does. -/
lemma mod_add_of_four {slots i d : ℕ} (hslots : 4 ∣ slots) (hpos : 0 < slots) (hi : 4 ∣ i)
    (hd : d < 4) : (i+d)%slots = i%slots+d := by
  obtain ⟨q,rfl⟩ := hslots
  obtain ⟨t,rfl⟩ := hi
  have hlt := Nat.mod_lt t (Nat.pos_of_mul_pos_left hpos)
  have hdiv := Nat.div_add_mod t q
  rw [Nat.mul_mod_mul_left]
  have hsum : 4*t+d = 4*(t%q)+d+4*q*(t/q) := by
    rw [Nat.mul_assoc]
    omega
  rw [hsum,Nat.add_mul_mod_self_left]
  exact Nat.mod_eq_of_lt (by omega)

section Region
variable {region stride regionBytes size a b : ℕ} {m : Memory} (hstride : stride = 2^a)
  (hbytes : regionBytes = 2^b) (hab : a+2 ≤ b) (hb : b < 64)
include hstride hbytes hab

lemma slots_eq : regionBytes/stride = 2^(b-a) := by
  rw [hstride,hbytes,Nat.pow_div (by omega) (by omega)]

lemma four_dvd_slots : 4 ∣ regionBytes/stride := by
  rw [slots_eq hstride hbytes hab]
  exact Nat.pow_dvd_pow 2 (show 2 ≤ b-a by omega)

lemma slots_pos : 0 < regionBytes/stride := by
  rw [slots_eq hstride hbytes hab]
  exact Nat.two_pow_pos _

lemma slots_mul : stride*(regionBytes/stride) = regionBytes := by
  rw [slots_eq hstride hbytes hab,hstride,hbytes,← pow_add]
  congr 1
  omega

include hb in
/-- The mask keeps the position within the region. -/
lemma masked_offset (i : ℕ) :
    (i*stride%addressSpace) &&& (regionBytes-1) = stride*(i%(regionBytes/stride)) := by
  have hmul := slots_mul hstride hbytes hab
  rw [← Nat.mul_mod_mul_left,hmul,hbytes,Nat.and_two_pow_sub_one_eq_mod,addressSpace,
    Nat.mod_mod_of_dvd _ (Nat.pow_dvd_pow 2 hb.le),Nat.mul_comm]

/-- A slot ends a stride before the region does. -/
lemma slotAt_bounds (region i : ℕ) : region ≤ slotAt region stride (regionBytes/stride) i ∧
    slotAt region stride (regionBytes/stride) i+stride ≤ region+regionBytes := by
  have hmul := slots_mul hstride hbytes hab
  have hslot := Nat.mod_lt i (slots_pos hstride hbytes hab)
  have hlt := Nat.mul_le_mul_left stride (Nat.succ_le_of_lt hslot)
  rw [Nat.mul_succ,hmul] at hlt
  rw [slotAt]
  omega

end Region

section Loop
variable {region stride regionBytes size iters a b : ℕ} {m : Memory} (hstride : stride = 2^a)
  (hbytes : regionBytes = 2^b) (hab : a+2 ≤ b) (hb : b < 64)
  (hspace : region+regionBytes-stride+size ≤ addressSpace) (hsize : 0 < size)

/-- The bytes that belong to an element at one of the slots, and those between them. -/
def Reached (region stride regionBytes size x : ℕ) : Prop :=
  region ≤ x ∧ x < region+(regionBytes-stride)+size

/-- After some trips every slot so far has been stored to, in turn. -/
structure Stored (region stride regionBytes size iters : ℕ) (m : Memory) (s : State) : Prop where
  four : 4 ∣ s.i
  bound : s.i ≤ iters
  stores : s.stores = (List.range s.i).map (slotAt region stride (regionBytes/stride))
  outside : ∀ x, ¬ Reached region stride regionBytes size x → s.mem x = m x

include hstride hbytes hab

lemma storeZero_outside {s : State} {i : ℕ}
    (h : ∀ x, ¬ Reached region stride regionBytes size x → s.mem x = m x) :
    ∀ x, ¬ Reached region stride regionBytes size x →
      (storeZero size (slotAt region stride (regionBytes/stride) i) s).mem x = m x := by
  intro x hx
  obtain ⟨hlow,hhigh⟩ := slotAt_bounds hstride hbytes hab region i
  have hpos : 0 < stride := hstride ▸ Nat.two_pow_pos a
  rw [Reached] at hx
  exact (Memory.store_outside _ _ _ _ _ (by omega)).trans (h x hx)

include hb hspace hsize

/-- The four addresses of a trip are the next four slots. -/
lemma trip_eq {s : State} (hfour : 4 ∣ s.i) :
    trip (stridedArgs region stride regionBytes) size s =
      { storeZero size (slotAt region stride (regionBytes/stride) (s.i+3))
          (storeZero size (slotAt region stride (regionBytes/stride) (s.i+2))
            (storeZero size (slotAt region stride (regionBytes/stride) (s.i+1))
              (storeZero size (slotAt region stride (regionBytes/stride) s.i) s))) with
        i := (s.i+4)%addressSpace } := by
  have hslots := four_dvd_slots hstride hbytes hab
  have hpos := slots_pos hstride hbytes hab
  have hfirst : (region+stride*(s.i%(regionBytes/stride)))%addressSpace =
      slotAt region stride (regionBytes/stride) s.i := by
    obtain ⟨-,hhigh⟩ := slotAt_bounds hstride hbytes hab region s.i
    exact Nat.mod_eq_of_lt (by rw [slotAt] at hhigh; omega)
  have hnext : ∀ d < 3, (slotAt region stride (regionBytes/stride) (s.i+d)+stride)%addressSpace =
      slotAt region stride (regionBytes/stride) (s.i+(d+1)) := by
    intro d hd
    obtain ⟨-,hhigh⟩ := slotAt_bounds hstride hbytes hab region (s.i+(d+1))
    have hadd : slotAt region stride (regionBytes/stride) (s.i+d)+stride =
        slotAt region stride (regionBytes/stride) (s.i+(d+1)) := by
      rw [slotAt,slotAt,mod_add_of_four hslots hpos hfour (by omega),
        mod_add_of_four hslots hpos hfour (by omega),← Nat.add_assoc,Nat.mul_succ,Nat.add_assoc]
    rw [hadd]
    exact Nat.mod_eq_of_lt (by omega)
  have hsecond := hnext 0 (by omega)
  rw [Nat.add_zero,Nat.zero_add] at hsecond
  rw [trip,stridedArgs]
  dsimp only
  rw [masked_offset hstride hbytes hab hb,hfirst,hsecond,hnext 1 (by omega),hnext 2 (by omega)]
  rfl

lemma trip_stored (hiters : iters < addressSpace) (hmul : 4 ∣ iters) {s : State}
    (hs : Stored region stride regionBytes size iters m s) (hcond : s.i < iters) :
    Stored region stride regionBytes size iters m
        (trip (stridedArgs region stride regionBytes) size s) ∧
      s.i < (trip (stridedArgs region stride regionBytes) size s).i := by
  obtain ⟨hfour,hbound,hstores,houtside⟩ := hs
  have hnext : (s.i+4)%addressSpace = s.i+4 := Nat.mod_eq_of_lt (by omega)
  rw [trip_eq hstride hbytes hab hb hspace hsize hfour,hnext]
  refine ⟨⟨?_,?_,?_,?_⟩,Nat.lt_add_of_pos_right (by omega)⟩
  · exact (Nat.dvd_add_right hfour).mpr dvd_rfl
  · change s.i+4 ≤ iters
    omega
  · simp only [storeZero,hstores,List.range_succ,List.map_append,List.map_cons,List.map_nil]
  · iterate 4 refine storeZero_outside hstride hbytes hab ?_
    exact houtside

lemma stridedStores_stored (hiters : iters < addressSpace) (hmul : 4 ∣ iters) {fuel : ℕ}
    (hfuel : iters < fuel) :
    ∃ out, stridedStores size iters (stridedArgs region stride regionBytes) m fuel = some out ∧
      out.stores = (List.range iters).map (slotAt region stride (regionBytes/stride)) ∧
      ∀ x, ¬ Reached region stride regionBytes size x → out.mem x = m x := by
  have hstart : Stored region stride regionBytes size iters m ⟨0,m,[]⟩ :=
    ⟨dvd_zero 4,Nat.zero_le _,rfl,fun _ _ => rfl⟩
  obtain ⟨s,hs,⟨-,hbound,hstores,houtside⟩,hstop⟩ := whileLoop_rule
    (Stored region stride regionBytes size iters m) (fun s => iters-s.i)
    (fun s hs hcond => by
      have hcond' : s.i < iters := of_decide_eq_true hcond
      obtain ⟨hnext,hgrow⟩ :=
        trip_stored hstride hbytes hab hb hspace hsize hiters hmul hs hcond'
      exact ⟨hnext,by omega⟩) hstart (lt_of_le_of_lt (Nat.sub_le _ _) hfuel)
  have hend : ¬ s.i < iters := of_decide_eq_false hstop
  obtain rfl : s.i = iters := by omega
  exact ⟨_,by rw [stridedStores,hs]; rfl,hstores,houtside⟩

end Loop

/-- Full rounds store to every slot equally often and to nothing else, so that no byte is written
beyond the element in the last slot. -/
theorem stridedStores_even (m : Memory) (region stride regionBytes size k : ℕ)
    (hstride : stride.isPowerOfTwo) (hbytes : regionBytes.isPowerOfTwo)
    (hslots : 4*stride ≤ regionBytes) (hsize : 0 < size) (hword : regionBytes < addressSpace)
    (hiters : k*(regionBytes/stride) < addressSpace)
    (hspace : region+regionBytes-stride+size ≤ addressSpace) :
    ∀ fuel, k*(regionBytes/stride) < fuel → ∃ out,
      stridedStores size (k*(regionBytes/stride)) (stridedArgs region stride regionBytes) m fuel =
          some out ∧
        (∀ j < regionBytes/stride, out.stores.count (region+j*stride) = k) ∧
        (∀ address ∈ out.stores, ∃ j < regionBytes/stride, address = region+j*stride) ∧
        (∀ address ∈ out.stores, address+size ≤ region+regionBytes-stride+size) ∧
        ∀ x, x < region ∨ region+regionBytes-stride+size ≤ x → out.mem x = m x := by
  intro fuel hfuel
  obtain ⟨a,rfl⟩ := hstride
  obtain ⟨b,rfl⟩ := hbytes
  have hab : a+2 ≤ b := by
    rw [Nat.mul_comm,show 4 = 2^2 from rfl,← pow_add] at hslots
    exact (Nat.pow_le_pow_iff_right (by omega)).mp hslots
  have hb : b < 64 := (Nat.pow_lt_pow_iff_right (by omega)).mp hword
  have hfour := four_dvd_slots rfl rfl hab
  obtain ⟨out,hout,hstores,houtside⟩ := stridedStores_stored (m := m) rfl rfl hab hb hspace hsize
    hiters (hfour.mul_left k) hfuel
  have hinj : Function.Injective (fun j => region+j*2^a) := by
    intro i j h
    exact Nat.eq_of_mul_eq_mul_right (Nat.two_pow_pos a) (Nat.add_left_cancel h)
  have hrounds : out.stores = (List.range (k*(2^b/2^a))).map
      (fun i => (fun j => region+j*2^a) (i%(2^b/2^a))) := by
    rw [hstores]
    exact List.map_congr_left (fun i _ => by rw [slotAt,Nat.mul_comm])
  refine ⟨out,hout,fun j hj => ?_,fun address ha => ?_,fun address ha => ?_,fun x hx => ?_⟩
  · rw [hrounds]
    exact count_rounds hinj hj k
  · rw [hrounds] at ha
    obtain ⟨i,-,rfl⟩ := List.mem_map.mp ha
    exact ⟨_,Nat.mod_lt i (slots_pos rfl rfl hab),rfl⟩
  · rw [hstores] at ha
    obtain ⟨i,-,rfl⟩ := List.mem_map.mp ha
    obtain ⟨-,hhigh⟩ := slotAt_bounds rfl rfl hab region i
    omega
  · have hle : 2^a ≤ 2^b := Nat.pow_le_pow_right (by omega) (by omega)
    exact houtside x (by rw [Reached]; omega)

/-- The loop count that the registration uses for a stride of one line in 4 KiB. -/
theorem stridedStores_even_line : ∃ out,
    stridedStores 8 640 (stridedArgs 65536 64 4096) (fun _ => 0) 641 = some out ∧
      ∀ j < 64, out.stores.count (65536+j*64) = 10 := by
  obtain ⟨out,hout,hcount,-⟩ := stridedStores_even (fun _ => 0) 65536 64 4096 8 10 ⟨6,rfl⟩
    ⟨12,rfl⟩ (by decide) (by decide) (by decide) (by decide) (by decide) 641 (by decide)
  exact ⟨out,hout,hcount⟩

end UarchBench.StridedStores
