import UarchBench.Base.Loop
import UarchBench.Memory.ShuffledRegion

/-! Touching the lines of a region: a strided loop from a base of any alignment, and one more
access to the last byte, without which a partial last line could be missed. -/
namespace UarchBench.TouchLines
open Base

/-- The locals of the loop, with the addresses read so far. -/
structure Touch where
  r : ℕ
  sum : Int8
  reads : List ℕ

def touch (m : Memory) (stride : ℕ) (s : Touch) : Touch :=
  ⟨(s.r+stride)%addressSpace,s.sum+(m s.r).toInt8,s.reads ++ [s.r]⟩

/-- `touch_lines`: the sum of the bytes as a `char`, and the addresses read. -/
def touchLines (m : Memory) (region size stride fuel : ℕ) : Option (Int64 × List ℕ) :=
  if size = 0 then some (0,[])
  else
    let last := (region+size-1)%addressSpace
    (whileLoop (fun s => decide (s.r < (region+size)%addressSpace)) (touch m stride) fuel
      ⟨region,0,[]⟩).map
      (fun s => ((s.sum+(m last).toInt8).toInt64,s.reads ++ [last]))

/-- The number of accesses in the loop. -/
def touches (size stride : ℕ) : ℕ := (size+stride-1)/stride

/-- No pointer of the loop overflows. -/
def NoOverflow (region size stride : ℕ) : Prop := region+touches size stride*stride < addressSpace

section Strides
variable {region size stride : ℕ} (hpos : 0 < stride)
include hpos

lemma lt_touches_iff {k : ℕ} : k < touches size stride ↔ k*stride < size := by
  rw [touches,← Nat.succ_le_iff,Nat.le_div_iff_mul_le hpos,Nat.succ_mul]
  omega

lemma size_le_touches : size ≤ touches size stride*stride :=
  not_lt.mp (fun h => lt_irrefl _ ((lt_touches_iff hpos).mpr h))

/-- A whole line in front of the last byte is as long as the stride at least. -/
lemma stride_in_line (hstride : stride ≤ cacheLineSize) {x : ℕ} (hx : region ≤ x)
    (hx' : x < region+size) : (region+size-1)/cacheLineSize = x/cacheLineSize ∨
      ∃ j, j*stride < size ∧ (region+j*stride)/cacheLineSize = x/cacheLineSize := by
  simp only [cacheLineSize] at *
  by_cases hlast : (region+size-1)/64 = x/64
  · exact Or.inl hlast
  · right
    by_cases hfirst : 64*(x/64) ≤ region
    · exact ⟨0,by omega,by rw [Nat.zero_mul]; omega⟩
    · -- the first stride that is not below the line
      have hdiv := Nat.div_add_mod (64*(x/64)-region+stride-1) stride
      have hmod := Nat.mod_lt (64*(x/64)-region+stride-1) hpos
      rw [Nat.mul_comm] at hdiv
      exact ⟨(64*(x/64)-region+stride-1)/stride,by omega,by omega⟩

end Strides

section Region
variable {m : Memory} {region size stride : ℕ}

/-- After some trips the loop has read every stride up to the current pointer. -/
structure Strided (region size stride : ℕ) (s : Touch) : Prop where
  reads_inside : ∀ a ∈ s.reads, region ≤ a ∧ a < region+size
  at_stride : ∃ k ≤ touches size stride, s.r = region+k*stride ∧
    ∀ j < k, region+j*stride ∈ s.reads

lemma touch_strided (hpos : 0 < stride) (hover : NoOverflow region size stride) {s : Touch}
    (hs : Strided region size stride s) (hcond : s.r < region+size) :
    Strided region size stride (touch m stride s) ∧ s.r < (touch m stride s).r := by
  obtain ⟨hinside,k,hk,hr,hreads⟩ := hs
  have hlt : k < touches size stride := (lt_touches_iff hpos).mpr (by omega)
  have hnext : (s.r+stride)%addressSpace = region+(k+1)*stride := by
    have hmul := Nat.mul_le_mul_right stride (Nat.succ_le_of_lt hlt)
    rw [hr,Nat.succ_mul,Nat.add_assoc]
    rw [Nat.succ_mul] at hmul
    exact Nat.mod_eq_of_lt (lt_of_le_of_lt (Nat.add_le_add_left hmul region) hover)
  refine ⟨⟨List.forall_mem_append.mpr ⟨hinside,fun a ha => ?_⟩,k+1,hlt,hnext,
    mem_trace_succ hreads (List.mem_singleton.mpr hr.symm)⟩,?_⟩
  · rw [List.mem_singleton.mp ha]
    exact ⟨by omega,hcond⟩
  · change s.r < (s.r+stride)%addressSpace
    rw [hnext,Nat.succ_mul]
    omega

lemma touch_loop (hpos : 0 < stride) (hover : NoOverflow region size stride) {fuel : ℕ}
    (hfuel : size < fuel) :
    ∃ s, whileLoop (fun s => decide (s.r < (region+size)%addressSpace)) (touch m stride) fuel
        ⟨region,0,[]⟩ = some s ∧
      (∀ a ∈ s.reads, region ≤ a ∧ a < region+size) ∧
      ∀ j, j*stride < size → region+j*stride ∈ s.reads := by
  have hend : (region+size)%addressSpace = region+size :=
    Nat.mod_eq_of_lt (lt_of_le_of_lt (Nat.add_le_add_left (size_le_touches hpos) region) hover)
  rw [hend]
  have hstart : Strided region size stride ⟨region,0,[]⟩ :=
    ⟨fun a ha => absurd ha List.not_mem_nil,0,Nat.zero_le _,by rw [Nat.zero_mul]; rfl,
      fun j hj => absurd hj (Nat.not_lt_zero j)⟩
  have hleft : region+size-region < fuel := by omega
  obtain ⟨s,hs,⟨hinside,k,hk,hr,hreads⟩,hstop⟩ := whileLoop_rule (Strided region size stride)
    (fun s => region+size-s.r) (fun s hs hcond => by
      have hcond' : s.r < region+size := of_decide_eq_true hcond
      obtain ⟨hnext,hgrow⟩ := touch_strided (m := m) hpos hover hs hcond'
      exact ⟨hnext,by omega⟩) hstart hleft
  refine ⟨s,hs,hinside,fun j hj => hreads j ?_⟩
  have hend' : ¬ s.r < region+size := of_decide_eq_false hstop
  have hk' : ¬ k*stride < size := by omega
  rw [← lt_touches_iff hpos] at hj hk'
  omega

/-- The loop and the last access read inside the region only, and in every line that the region
meets. -/
theorem touchLines_covers (m : Memory) (region size stride : ℕ) (hsize : 0 < size)
    (hpos : 1 ≤ stride) (hstride : stride ≤ 64) (hover : NoOverflow region size stride) :
    ∀ fuel, size < fuel → ∃ sum reads, touchLines m region size stride fuel = some (sum,reads) ∧
      (∀ a ∈ reads, region ≤ a ∧ a < region+size) ∧
      ∀ x, region ≤ x → x < region+size → ∃ a ∈ reads, a/cacheLineSize = x/cacheLineSize := by
  intro fuel hfuel
  obtain ⟨s,hs,hinside,hreads⟩ := touch_loop (m := m) hpos hover hfuel
  have hlast : (region+size-1)%addressSpace = region+size-1 := by
    have hle : size ≤ touches size stride*stride := size_le_touches hpos
    exact Nat.mod_eq_of_lt (lt_of_le_of_lt (by omega) hover)
  refine ⟨_,_,by rw [touchLines,if_neg hsize.ne',hs]; rfl,
    List.forall_mem_append.mpr ⟨hinside,fun a ha => ?_⟩,fun x hx hx' => ?_⟩
  · rw [List.mem_singleton.mp ha,hlast]
    omega
  · rcases stride_in_line hpos hstride hx hx' with hline | ⟨j,hj,hline⟩
    · exact ⟨_,List.mem_append_right _ (List.mem_singleton.mpr rfl),by rw [hlast,hline]⟩
    · exact ⟨_,List.mem_append_left _ (hreads j hj),hline⟩

end Region

/-- A base in the middle of a line, and a last line of which only two bytes belong to the
region. -/
theorem touchLines_covers_unaligned : ∃ sum reads,
    touchLines (fun _ => 1) 4126 100 64 101 = some (sum,reads) ∧
      (∀ a ∈ reads, 4126 ≤ a ∧ a < 4126+100) ∧
      ∀ x, 4126 ≤ x → x < 4126+100 → ∃ a ∈ reads, a/cacheLineSize = x/cacheLineSize :=
  touchLines_covers (fun _ => 1) 4126 100 64 (by decide) (by decide) (by decide)
    (by unfold NoOverflow; decide) 101 (by decide)

end UarchBench.TouchLines
