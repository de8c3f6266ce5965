import UarchBench.Base.Countdown
import UarchBench.Base.Lcg
import UarchBench.Base.Visits
import UarchBench.Base.WrapMemory

/-! The kernels that jump between identical blocks: a linear congruential generator chooses the next
one, and two payload instructions in its dependency chain leave its state as it is. -/
namespace UarchBench.LoadAlloc
open Base

abbrev Word := BitVec 64

def latBodySize : ℕ := 64
def latBodyCountLg2 : ℕ := 3
def latBodyCount : ℕ := 2^latBodyCountLg2

/-- The instructions of the payloads: `add rdx, [rsp + r10]`, `nop5` and
`lea rdx, [rdx + r10 + disp]`. -/
inductive Instr
  | addLoad
  | nop5
  | lea (disp : Word)
  deriving DecidableEq, Repr

structure State where
  rax : Word
  rcx : Word
  rdx : Word
  rdi : Word
  r8 : Word
  r10 : Word
  r11 : Word
  rsp : Word
  mem : WrapMemory 64
  pc : Word

def State.setRdx (s : State) (x : Word) : State := { s with rdx := x }

@[simp] lemma setRdx_rdx (s : State) (x : Word) : (s.setRdx x).rdx = x := rfl
@[simp] lemma setRdx_r10 (s : State) (x : Word) : (s.setRdx x).r10 = s.r10 := rfl
@[simp] lemma setRdx_rsp (s : State) (x : Word) : (s.setRdx x).rsp = s.rsp := rfl
@[simp] lemma setRdx_mem (s : State) (x : Word) : (s.setRdx x).mem = s.mem := rfl
@[simp] lemma setRdx_setRdx (s : State) (x y : Word) : (s.setRdx x).setRdx y = s.setRdx y := rfl
@[simp] lemma setRdx_same (s : State) : s.setRdx s.rdx = s := rfl

def exec (s : State) : Instr → State
  | .addLoad => s.setRdx (s.rdx+BitVec.ofNat 64 (s.mem.load (s.rsp+s.r10) 8))
  | .nop5 => s
  | .lea disp => s.setRdx (s.rdx+s.r10+disp)

/-- `lat_body`: the payload, the generator and the jump. -/
def latBody (top : Word) (payload : List Instr) (s : State) : State :=
  let s := payload.foldl exec s
  let rdx := s.rdx*s.rax+s.rcx
  let r8 := (((rdx >>> 45) &&& BitVec.ofNat 64 (latBodyCount-1))*BitVec.ofNat 64 latBodySize)+top
  let r8 := if (subFlags s.rdi 1).zero then s.r11 else r8
  { s with rdx := rdx, r8 := r8, rdi := s.rdi-1, pc := r8 }

/-- The distance of the code from `.top`. -/
def distance (top : Word) (s : State) : ℕ := (s.pc-top).toNat

/-- The block that the code is at. -/
def block (top : Word) (s : State) : ℕ := distance top s/latBodySize

/-- The code from the start of a block to its jump. -/
def step (top : Word) (payload : List Instr) (s : State) : Option State :=
  if distance top s%latBodySize = 0 ∧ block top s < latBodyCount then some (latBody top payload s)
  else none

def multiplier : ℕ := 6364136223846793005
def increment : ℕ := 1

/-- `define_load_alloc`, up to the first block: `s` is the state of the caller. -/
def enter (top : Word) (s : State) : State :=
  let rsp := s.rsp-8
  { s with
    rsp := rsp
    mem := s.mem.store rsp 8 0
    r10 := 0
    r11 := top+BitVec.ofNat 64 (latBodyCount*latBodySize)
    rax := BitVec.ofNat 64 multiplier
    rcx := BitVec.ofNat 64 increment
    rdx := BitVec.ofNat 64 multiplier
    pc := top }

/-- `.end`, with the return to the caller. -/
def leave (s : State) : State :=
  let rsp := s.rsp+8
  { s with
    rax := BitVec.ofNat 64 (s.mem.load s.rsp 8)
    rsp := rsp+8
    pc := BitVec.ofNat 64 (s.mem.load rsp 8) }

/-- The blocks that are visited until there is no next one. -/
def la (payload : List Instr) (top : Word) (fuel : ℕ) (s : State) : Option (List ℕ) :=
  visits (step top payload) (block top) fuel (enter top s)

def laLoad : List Instr := [.addLoad,.nop5]

def laLea : List Instr := [.lea (-1#64),.lea 1#64]

/-- The generator after some trips. -/
def generated (k : ℕ) : ℕ := (lcg multiplier increment)^[k] multiplier

/-- The block that the generator chooses: the three bits below bit 48. -/
def chosen (k : ℕ) : ℕ := generated k%2^48/2^45

/-- The block of a trip. The first one is entered from above. -/
def visited (k : ℕ) : ℕ := if k = 0 then 0 else chosen k

/-- The state in front of a trip, with the trips that are left. -/
structure Before (top : Word) (trips k : ℕ) (s : State) : Prop where
  rax : s.rax = BitVec.ofNat 64 multiplier
  rcx : s.rcx = BitVec.ofNat 64 increment
  rdx : s.rdx = BitVec.ofNat 64 (generated k)
  rdi : s.rdi = BitVec.ofNat 64 (trips-k)
  r10 : s.r10 = 0#64
  r11 : s.r11 = top+BitVec.ofNat 64 (latBodyCount*latBodySize)
  zero : s.mem.load s.rsp 8 = 0
  pc : s.pc = top+BitVec.ofNat 64 (latBodySize*(if k = trips then latBodyCount else visited k))

lemma visited_lt (k : ℕ) : visited k < latBodyCount := by
  rw [visited]
  split_ifs
  · decide
  · exact Nat.div_lt_of_lt_mul (Nat.mod_lt _ (by decide))

section Trip
variable {top : Word} {trips k : ℕ} {s : State}

lemma Before.distance (h : Before top trips k s) :
    distance top s = latBodySize*(if k = trips then latBodyCount else visited k) := by
  have hlt : (if k = trips then latBodyCount else visited k) ≤ latBodyCount := by
    split_ifs
    · exact le_rfl
    · exact (visited_lt k).le
  rw [LoadAlloc.distance,h.pc,BitVec.add_comm,BitVec.add_sub_cancel,BitVec.toNat_ofNat]
  refine Nat.mod_eq_of_lt (lt_of_le_of_lt (Nat.mul_le_mul_left latBodySize hlt) (by decide))

/-- The load is that of the zero on the stack. -/
lemma laLoad_keeps (h : Before top trips k s) : laLoad.foldl exec s = s := by
  have hrdx : s.rdx+BitVec.ofNat 64 (s.mem.load (s.rsp+s.r10) 8) = s.rdx := by
    rw [h.r10,BitVec.add_zero,h.zero,BitVec.add_zero]
  rw [laLoad,List.foldl_cons,List.foldl_cons,List.foldl_nil,exec,exec,hrdx,setRdx_same]

/-- The displacements cancel out. -/
lemma laLea_keeps (h : Before top trips k s) : laLea.foldl exec s = s := by
  have hrdx : s.rdx+s.r10+(-1#64)+s.r10+1#64 = s.rdx := by
    rw [h.r10,BitVec.add_zero,BitVec.add_zero,BitVec.add_assoc,BitVec.add_comm (-1#64),
      ← BitVec.sub_eq_add_neg,BitVec.sub_self,BitVec.add_zero]
  rw [laLea,List.foldl_cons,List.foldl_cons,List.foldl_nil,exec,exec,setRdx_setRdx,setRdx_rdx,
    setRdx_r10,hrdx,setRdx_same]

lemma payload_keeps {payload : List Instr} (hpayload : payload ∈ [laLoad,laLea])
    (h : Before top trips k s) : payload.foldl exec s = s := by
  rcases List.mem_pair.mp hpayload with hpayload | hpayload
  · rw [hpayload,laLoad_keeps h]
  · rw [hpayload,laLea_keeps h]

/-- The block is taken from bits of the new state. -/
lemma jump_chosen (x : ℕ) : ((BitVec.ofNat 64 x >>> 45) &&& BitVec.ofNat 64 (latBodyCount-1)) =
    BitVec.ofNat 64 (x%2^48/2^45) := by
  apply BitVec.eq_of_toNat_eq
  rw [BitVec.toNat_and,BitVec.toNat_ushiftRight,BitVec.toNat_ofNat,BitVec.toNat_ofNat,
    BitVec.toNat_ofNat]
  have hmask : (latBodyCount-1)%2^64 = 2^3-1 := rfl
  rw [hmask,Nat.and_two_pow_sub_one_eq_mod,Nat.shiftRight_eq_div_pow]
  omega

lemma generated_succ (k : ℕ) : BitVec.ofNat 64 (generated (k+1)) =
    BitVec.ofNat 64 (generated k)*BitVec.ofNat 64 multiplier+BitVec.ofNat 64 increment := by
  rw [← BitVec.ofNat_mul,← BitVec.ofNat_add]
  refine congrArg _ ?_
  rw [generated,Function.iterate_succ_apply',lcg,Nat.mul_comm]
  rfl

lemma last_trip (hk : k < trips) (htrips : trips ≤ 2^64) :
    (subFlags (BitVec.ofNat 64 (trips-k)) 1).zero = decide (k+1 = trips) ∧
      BitVec.ofNat 64 (trips-k)-1 = BitVec.ofNat 64 (trips-(k+1)) := by
  obtain ⟨left,rfl⟩ : ∃ left, trips = k+1+left := ⟨trips-(k+1),by omega⟩
  have hleft : k+1+left-k = left+1 := by omega
  have hdec : BitVec.ofNat 64 (left+1)-1 = BitVec.ofNat 64 left := by
    rw [BitVec.ofNat_add]
    exact BitVec.add_sub_cancel _ _
  rw [hleft,Nat.add_sub_cancel_left]
  refine ⟨?_,hdec⟩
  rw [subFlags,hdec,decide_eq_decide,← BitVec.toNat_inj,BitVec.toNat_ofNat]
  change left%2^64 = 0 ↔ _
  omega

/-- One trip. -/
theorem latBody_before {payload : List Instr} (hpayload : payload ∈ [laLoad,laLea])
    (hk : k < trips) (htrips : trips ≤ 2^64) (h : Before top trips k s) :
    Before top trips (k+1) (latBody top payload s) := by
  obtain ⟨hzero,hdec⟩ := last_trip hk htrips
  have hrdx : s.rdx*s.rax+s.rcx = BitVec.ofNat 64 (generated (k+1)) := by
    rw [h.rdx,h.rax,h.rcx,generated_succ]
  rw [latBody,payload_keeps hpayload h]
  refine ⟨h.rax,h.rcx,hrdx,?_,h.r10,h.r11,h.zero,?_⟩
  · rw [← hdec,← h.rdi]
  · dsimp only
    rw [hrdx,jump_chosen,h.rdi,hzero]
    by_cases hlast : k+1 = trips
    · simp only [hlast,decide_true,if_true]
      rw [h.r11,Nat.mul_comm]
    · simp only [hlast,decide_false,Bool.false_eq_true,if_false]
      rw [visited,if_neg (Nat.succ_ne_zero k),← BitVec.ofNat_mul,BitVec.add_comm,Nat.mul_comm]
      rfl

lemma Before.distance_eq (h : Before top trips k s) (hk : k < trips) :
    LoadAlloc.distance top s = latBodySize*visited k := by
  rw [h.distance,if_neg hk.ne]

lemma Before.block_eq (h : Before top trips k s) (hk : k < trips) : block top s = visited k := by
  rw [block,h.distance_eq hk]
  exact Nat.mul_div_cancel_left _ (by decide)

lemma Before.step_eq {payload : List Instr} (h : Before top trips k s) (hk : k < trips) :
    step top payload s = some (latBody top payload s) := by
  rw [step,if_pos ⟨by rw [h.distance_eq hk]; exact Nat.mul_mod_right _ _,by
    rw [h.block_eq hk]
    exact visited_lt k⟩]

/-- No block starts behind the last one. -/
lemma Before.step_eq_none {payload : List Instr} (h : Before top trips trips s) :
    step top payload s = none := by
  have hblock : block top s = latBodyCount := by
    rw [block,h.distance,if_pos rfl]
    exact Nat.mul_div_cancel_left _ (by decide)
  rw [step,if_neg (fun hin => (hblock ▸ hin.2).ne rfl)]

end Trip

lemma enter_before (top : Word) (s : State) : Before top (decTrips s.rdi) 0 (enter top s) where
  rax := rfl
  rcx := rfl
  rdx := rfl
  rdi := by
    have hone : s.rdi = (s.rdi-1)+1 := (BitVec.sub_add_cancel _ _).symm
    conv_lhs => rw [show (enter top s).rdi = s.rdi from rfl,hone]
    rw [Nat.sub_zero,decTrips,BitVec.ofNat_add,BitVec.ofNat_toNat,BitVec.setWidth_eq]
    rfl
  r10 := rfl
  r11 := rfl
  zero := WrapMemory.load_store_same (by decide)
  pc := by
    have hpos : 0 ≠ decTrips s.rdi := (Nat.succ_ne_zero _).symm
    rw [if_neg hpos]
    exact (BitVec.add_zero top).symm

section Run
variable {payload : List Instr} (hpayload : payload ∈ [laLoad,laLea]) (top : Word) (s : State)
include hpayload

lemma trips_before {k : ℕ} (hk : k ≤ decTrips s.rdi) :
    Before top (decTrips s.rdi) k ((latBody top payload)^[k] (enter top s)) := by
  induction k with
  | zero => exact enter_before top s
  | succ k ih =>
    rw [Function.iterate_succ_apply']
    have htrips : decTrips s.rdi ≤ 2^64 := Nat.succ_le_of_lt (BitVec.isLt _)
    exact latBody_before hpayload hk htrips (ih (by omega))

/-- The run of the blocks, from the first one to the label behind them. -/
theorem la_path : Path (step top payload) (block top) (enter top s)
    ((List.range (decTrips s.rdi)).map visited)
    ((latBody top payload)^[decTrips s.rdi] (enter top s)) := by
  have hpath : Path (step top payload) (block top) _ _ _ := Path.steps
    (fun k => (latBody top payload)^[k] (enter top s)) (decTrips s.rdi) (fun k hk => by
      rw [Function.iterate_succ_apply']
      exact (trips_before hpayload top s hk.le).step_eq hk)
  have hlabels : ∀ k ∈ List.range (decTrips s.rdi),
      block top ((latBody top payload)^[k] (enter top s)) = visited k := fun k hk => by
    have hlt := List.mem_range.mp hk
    exact (trips_before hpayload top s hlt.le).block_eq hlt
  rwa [List.map_congr_left hlabels] at hpath

end Run

/-- No instruction of the blocks writes the stack. -/
lemma latBody_stack (top : Word) (payload : List Instr) (s : State) :
    (latBody top payload s).rsp = s.rsp ∧ (latBody top payload s).mem = s.mem := by
  have hexec : ∀ s i, (exec s i).rsp = s.rsp ∧ (exec s i).mem = s.mem := fun s i => by
    cases i <;> simp only [exec,setRdx_rsp,setRdx_mem,and_self]
  have hpayload : ∀ (payload : List Instr) s, (payload.foldl exec s).rsp = s.rsp ∧
      (payload.foldl exec s).mem = s.mem := by
    intro payload
    induction payload with
    | nil => exact fun s => ⟨rfl,rfl⟩
    | cons i payload ih =>
      intro s
      obtain ⟨hrsp,hmem⟩ := hexec s i
      obtain ⟨hrsp',hmem'⟩ := ih (exec s i)
      exact ⟨hrsp'.trans hrsp,hmem'.trans hmem⟩
  exact hpayload payload s

lemma iterate_latBody_stack (top : Word) (payload : List Instr) (k : ℕ) (s : State) :
    ((latBody top payload)^[k] s).rsp = s.rsp ∧ ((latBody top payload)^[k] s).mem = s.mem := by
  induction k with
  | zero => exact ⟨rfl,rfl⟩
  | succ k ih =>
    obtain ⟨hrsp,hmem⟩ := latBody_stack top payload ((latBody top payload)^[k] s)
    rw [Function.iterate_succ_apply']
    exact ⟨hrsp.trans ih.1,hmem.trans ih.2⟩

/-- The stack pointer behind the zero is that of the caller, and the return address is not
overwritten. -/
lemma leave_stack {t : State} {top : Word} {s : State} (hrsp : t.rsp = (enter top s).rsp)
    (hmem : t.mem = (enter top s).mem) :
    (leave t).rsp = s.rsp+8 ∧ (leave t).pc = BitVec.ofNat 64 (s.mem.load s.rsp 8) := by
  have hpop : t.rsp+8 = s.rsp := by
    rw [hrsp]
    exact BitVec.sub_add_cancel _ _
  have hapart : (s.mem.store (s.rsp-8) 8 0).load s.rsp 8 = s.mem.load s.rsp 8 := by
    refine WrapMemory.load_store_apart (by decide) (fun x hx => ?_)
    have hsub : x-(s.rsp-8) = x-s.rsp+8 := by bv_omega
    rw [hsub,BitVec.toNat_add]
    change 8 ≤ ((x-s.rsp).toNat+8)%2^64
    omega
  refine ⟨congrArg (·+8) hpop,?_⟩
  change BitVec.ofNat 64 (t.mem.load (t.rsp+8) 8) = _
  rw [hpop,hmem]
  exact congrArg _ hapart

/-- The bits that choose the block are the high ones of a generator with the full period. -/
lemma count_visited {first : ℕ} (hfirst : 0 < first) {b : ℕ} (hb : b < latBodyCount) :
    ((List.range (2^48)).map (fun k => visited (first+k))).count b = 2^45 := by
  have hvisited : ∀ k, visited (first+k) =
      (lcg multiplier increment)^[first+k] multiplier%2^(latBodyCountLg2+45)/2^45 := fun k => by
    rw [visited,if_neg (by omega)]
    rfl
  simp only [hvisited]
  exact count_lcg_div (by decide) (by decide) latBodyCountLg2 45 multiplier first hb

/-- Whatever the payload, the caller and the place of the code, the kernel goes through the same
blocks, as many as there are iterations, and returns with the stack of the caller; from the second
trip on, the blocks of any 2^48 trips are all blocks, equally often. -/
theorem la_visits (payload : List Instr) (hpayload : payload ∈ [laLoad,laLea]) (top : Word)
    (s : State) :
    (∀ fuel, decTrips s.rdi < fuel →
      la payload top fuel s = some ((List.range (decTrips s.rdi)).map visited)) ∧
    (∃ t, Path (step top payload) (block top) (enter top s)
        ((List.range (decTrips s.rdi)).map visited) t ∧
      t.pc = top+BitVec.ofNat 64 (latBodyCount*latBodySize) ∧
      (leave t).rsp = s.rsp+8 ∧ (leave t).pc = BitVec.ofNat 64 (s.mem.load s.rsp 8)) ∧
    ∀ first, 0 < first → ∀ b < latBodyCount,
      ((List.range (2^48)).map (fun k => visited (first+k))).count b = 2^45 := by
  have hpath := la_path hpayload top s
  have hlast := trips_before hpayload top s le_rfl
  refine ⟨fun fuel hfuel => ?_,⟨_,hpath,?_,?_⟩,fun first hfirst b hb => count_visited hfirst hb⟩
  · refine hpath.visits_eq hlast.step_eq_none ?_
    rwa [List.length_map,List.length_range]
  · rw [hlast.pc,if_pos rfl,Nat.mul_comm]
  · obtain ⟨hrsp,hmem⟩ := iterate_latBody_stack top payload (decTrips s.rdi) (enter top s)
    exact leave_stack hrsp hmem

/-- A caller that asks for a hundred iterations. -/
def caller : State := ⟨0,0,0,100,0,0,0,8192,fun _ => 0,0⟩

theorem la_visits_caller :
    la laLoad 4096 101 caller = some ((List.range 100).map visited) ∧
      (∃ t, Path (step 4096 laLoad) (block 4096) (enter 4096 caller)
          ((List.range 100).map visited) t ∧
        t.pc = 4096+BitVec.ofNat 64 (latBodyCount*latBodySize) ∧
        (leave t).rsp = 8192+8 ∧ (leave t).pc = BitVec.ofNat 64 (caller.mem.load 8192 8)) ∧
      ((List.range (2^48)).map (fun k => visited (1+k))).count 7 = 2^45 := by
  obtain ⟨hvisits,hpath,hcount⟩ := la_visits laLoad (by decide) 4096 caller
  exact ⟨hvisits 101 (by decide),hpath,hcount 1 Nat.one_pos 7 (by decide)⟩

end UarchBench.LoadAlloc
