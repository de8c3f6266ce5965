import UarchBench.Kernels.Calls

/-! The forward jumps: direct ones, indirect ones to an address that each block computes from its own,
and one into a row of nops at a place that the counter chooses. -/
namespace UarchBench.ForwardJumps
open Base Machine Calls

inductive Label
  | enter (k : ℕ)
  | start
  | top (k : ℕ)
  | before (i : ℕ)
  | jump (i : ℕ)
  | nop (k : ℕ)
  | again
  | nop2
  | leave
  deriving DecidableEq, Repr

inductive Kernel
  | jmpForward
  | indirectForward (bytes : ℕ)
  | indirectVariable
  deriving DecidableEq, Repr

def nopCount : ℕ := 128

namespace Kernel

/-- The number of jumps in a trip. -/
def jumps : Kernel → ℕ
  | indirectVariable => 1
  | _ => 20

/-- `clc` sets the carry flag, which nothing reads. -/
def enterCode : Kernel → List (Straight Label)
  | indirectVariable =>
    [.op (.op .xor .w32 .rax (.reg .rax)),.op .nop,.leaLabel .rax (.nop 0) none]
  | _ => [.op (.op .xor .w32 .rax (.reg .rax)),.op .nop]

def topCode : Kernel → List (Straight Label)
  | jmpForward => []
  | indirectForward _ => [.leaLabel .rax (.before 0) none]
  | indirectVariable =>
    [.op (.op .mov .w64 .rdx (.reg .rdi)),.op (.op .and .w64 .rdx (.imm 127)),
     .op (.lea .rdx ⟨.rax,0,some (.rdx,2)⟩)]

variable (K : Kernel)

/-- The first label of a block; behind the last one the trip ends. -/
def block (i : ℕ) : Label :=
  if i < K.jumps then
    match K with
    | indirectForward _ => .before i
    | _ => .jump i
  else .again

def enterFrom (k : ℕ) : Label := if k < K.enterCode.length then .enter k else .start
def topFrom (k : ℕ) : Label := if k < K.topCode.length then .top k else K.block 0
def nopFrom (k : ℕ) : Label := if k < nopCount then .nop k else .again

/-- The fill between the jumps is never reached. -/
def code : Label → Calls.Instr Label
  | .enter k => .straight (K.enterCode.getD k (.op .nop))
  | .start => .jmp (K.topFrom 0)
  | .top k => .straight (K.topCode.getD k (.op .nop))
  | .before _ =>
    match K with
    | indirectForward bytes => .straight (.op (.op .add .w64 .rax (.imm (BitVec.ofNat 64 bytes))))
    | _ => .ret
  | .jump i =>
    match K with
    | jmpForward => .jmp (K.block (i+1))
    | indirectForward _ => .jmpReg .rax
    | indirectVariable => .jmpReg .rdx
  | .nop _ => .straight (.op .nop)
  | .again => .decJnz .rdi (K.topFrom 0)
  | .nop2 => .straight (.op .nop)
  | .leave => .ret

def next : Label → Label
  | .enter k => K.enterFrom (k+1)
  | .start => K.topFrom 0
  | .top k => K.topFrom (k+1)
  | .before i => .jump i
  | .jump i => if K = indirectVariable then nopFrom 0 else K.block (i+1)
  | .nop k => nopFrom (k+1)
  | .again => .nop2
  | .nop2 => .leave
  | .leave => .enter 0

def has : Label → Prop
  | .enter k => k < K.enterCode.length
  | .top k => k < K.topCode.length
  | .before i => i < K.jumps ∧ ∃ bytes, K = indirectForward bytes
  | .jump i => i < K.jumps
  | .nop k => k < nopCount ∧ K = indirectVariable
  | _ => True

def program : Program Label := ⟨K.code,K.next,K.has⟩

/-- The distances of the fill: the blocks are as long as the kernel's name says, and a nop has two
bytes. -/
def Spaced (lay : Layout K.program) : Prop :=
  match K with
  | jmpForward => True
  | indirectForward bytes => ∀ i < K.jumps,
    lay.place (K.block (i+1)) = lay.place (K.block i)+BitVec.ofNat 64 bytes
  | indirectVariable => ∀ k < nopCount,
    lay.place (.nop k) = lay.place (.nop 0)+BitVec.ofNat 64 (2*k)

/-- The nop that the jump goes to if the counter has this value. -/
def target (x : Word) : ℕ := x.toNat%nopCount

/-- The labels of a trip in which the counter has this value. -/
def tripLabels (x : Word) : List Label :=
  (List.range K.topCode.length).map .top ++
    match K with
    | jmpForward => (List.range K.jumps).map .jump
    | indirectForward _ => (List.range K.jumps).flatMap (fun i => [.before i,.jump i])
    | indirectVariable =>
      .jump 0::(List.range (nopCount-target x)).map (fun k => .nop (target x+k))

def labels (x : Word) : List Label :=
  (List.range K.enterCode.length).map .enter ++ [.start] ++
    (List.range (decTrips x)).flatMap (fun k => K.tripLabels (x-BitVec.ofNat 64 k) ++ [.again]) ++
    [.nop2,.leave]

end Kernel

section Run
variable (env : Env)

lemma top_goes {K : Kernel} (lay : Layout K.program) (u : Cpu) :
    Goes lay env ⟨u,lay.place (K.topFrom 0)⟩ ((List.range K.topCode.length).map .top)
      ⟨K.topCode.foldl (Straight.exec lay env) u,lay.place (K.block 0)⟩ := by
  have hgoes : Goes lay env ⟨u,lay.place (K.topFrom 0)⟩
      ((List.range K.topCode.length).map .top)
      ⟨_,lay.place (K.topFrom K.topCode.length)⟩ :=
    goes_straight u (fun _ hk => congrArg _ (List.getElem_eq_getD _).symm) (fun _ _ => rfl)
      (fun _ hk => if_pos hk) (fun _ hk => hk)
  have hend : K.topFrom K.topCode.length = K.block 0 := if_neg (lt_irrefl _)
  rwa [hend] at hgoes

/-- The direct jumps of a trip. -/
lemma jmpForward_trip (lay : Layout Kernel.jmpForward.program) (u : Cpu) :
    Goes lay env ⟨u,lay.place (Kernel.jmpForward.topFrom 0)⟩
      (Kernel.jmpForward.tripLabels (u.regs .rdi)) ⟨u,lay.place .again⟩ :=
  goes_steps (fun i => ⟨u,lay.place (Kernel.jmpForward.block i)⟩) Label.jump 20
    (fun _ hi => congrArg lay.place (if_pos hi)) (fun _ hi => hi) (fun _ _ => rfl)

/-- The registers that the loops use. -/
def scratch : List Reg := [.rax,.rdx,.rdi]

section Indirect
variable {bytes : ℕ} (lay : Layout (Kernel.indirectForward bytes).program)

/-- A block that starts with its address in `rax`, and the next one does then, too. -/
lemma block_goes (hspaced : (Kernel.indirectForward bytes).Spaced lay) {i : ℕ} (hi : i < 20)
    {u : Cpu} (hrax : u.regs .rax = lay.place ((Kernel.indirectForward bytes).block i)) :
    let next := lay.place ((Kernel.indirectForward bytes).block (i+1))
    Goes lay env ⟨u,lay.place ((Kernel.indirectForward bytes).block i)⟩ [.before i,.jump i]
      ⟨u.set .rax next,next⟩ := by
  intro next
  have hblock : (Kernel.indirectForward bytes).block i = .before i := if_pos hi
  have hadd : Goes lay env ⟨u,lay.place (.before i)⟩ [.before i]
      ⟨u.set .rax (u.regs .rax+BitVec.ofNat 64 bytes),lay.place (.jump i)⟩ :=
    goes_one rfl ⟨hi,bytes,rfl⟩
  have hjump : Goes lay env ⟨u.set .rax next,lay.place (.jump i)⟩ [.jump i]
      ⟨u.set .rax next,(u.set .rax next).regs .rax⟩ := goes_one rfl hi
  rw [hrax,← hspaced i hi] at hadd
  rw [Cpu.set_same] at hjump
  rw [hblock]
  exact hadd.append hjump

/-- The indirect jumps of a trip. -/
lemma indirectForward_trip (hspaced : (Kernel.indirectForward bytes).Spaced lay) (u : Cpu) :
    ∃ d, Goes lay env ⟨u,lay.place ((Kernel.indirectForward bytes).topFrom 0)⟩
        ((Kernel.indirectForward bytes).tripLabels (u.regs .rdi)) ⟨d,lay.place .again⟩ ∧
      d.regs .rdi = u.regs .rdi ∧ Kept scratch 0 u d := by
  obtain ⟨t,hgoes,hpc,-,hrdi,hkept⟩ : ∃ t, Goes lay env
      ⟨u.set .rax (lay.place (.before 0)),
        lay.place ((Kernel.indirectForward bytes).block 0)⟩
      ((List.range 20).flatMap (fun i => [.before i,.jump i])) t ∧
      t.pc = lay.place ((Kernel.indirectForward bytes).block 20) ∧
      t.cpu.regs .rax = lay.place ((Kernel.indirectForward bytes).block 20) ∧
      t.cpu.regs .rdi = u.regs .rdi ∧ Kept scratch 0 u t.cpu := by
    refine Goes.rounds (I := fun i t =>
      t.pc = lay.place ((Kernel.indirectForward bytes).block i) ∧
      t.cpu.regs .rax = lay.place ((Kernel.indirectForward bytes).block i) ∧
      t.cpu.regs .rdi = u.regs .rdi ∧ Kept scratch 0 u t.cpu) _ 20 (fun i hi t ht => ?_)
      ⟨rfl,Cpu.set_same ..,Cpu.set_of_ne _ _ _ _ (by decide),Kept.refl.set (by decide) _⟩
    obtain ⟨hpc,hrax,hrdi,hkept⟩ := ht
    have hstart : t = ⟨t.cpu,lay.place ((Kernel.indirectForward bytes).block i)⟩ := by rw [← hpc]
    rw [hstart]
    refine ⟨_,block_goes env lay hspaced hi hrax,rfl,Cpu.set_same ..,?_,hkept.set (by decide) _⟩
    rw [Cpu.set_of_ne _ _ _ _ (by decide),hrdi]
  have hend : t = ⟨t.cpu,lay.place .again⟩ := by
    rw [show Label.again = (Kernel.indirectForward bytes).block 20 from rfl,← hpc]
  rw [hend] at hgoes
  exact ⟨t.cpu,(top_goes env lay u).append hgoes,hrdi,hkept⟩

end Indirect

section Variable
variable (lay : Layout Kernel.indirectVariable.program)

lemma masked_twice (x : Word) :
    (x &&& 127)*2+0 = BitVec.ofNat 64 (2*Kernel.target x) := by
  have hmask : x.toNat &&& 127 = Kernel.target x := Nat.and_two_pow_sub_one_eq_mod x.toNat 7
  have htwice : ((x &&& 127)*2+0).toNat = Kernel.target x*2%2^64 := by
    rw [← hmask]
    exact congrArg BitVec.toNat (BitVec.add_zero ((x &&& 127)*2))
  apply BitVec.eq_of_toNat_eq
  rw [htwice,BitVec.toNat_ofNat,Nat.mul_comm]

/-- The jump into the nops, and the nops behind its target. -/
lemma indirectVariable_trip (hspaced : Kernel.indirectVariable.Spaced lay) {u : Cpu}
    (hrax : u.regs .rax = lay.place (.nop 0)) :
    ∃ d, Goes lay env ⟨u,lay.place (Kernel.indirectVariable.topFrom 0)⟩
        (Kernel.indirectVariable.tripLabels (u.regs .rdi)) ⟨d,lay.place .again⟩ ∧
      (d.regs .rax = lay.place (.nop 0) ∧ d.regs .rdi = u.regs .rdi) ∧ Kept scratch 0 u d := by
  let j := Kernel.target (u.regs .rdi)
  have hj : j < nopCount := Nat.mod_lt _ (by decide)
  let v₁ := u.set .rdx (u.regs .rdi)
  let v₂ := v₁.set .rdx (v₁.regs .rdx &&& 127)
  let d := v₂.set .rdx (v₂.regs .rax+v₂.regs .rdx*2+0)
  have hrdx : d.regs .rdx = lay.place (.nop j) := by
    have hv₁ : v₁.regs .rdx = u.regs .rdi := Cpu.set_same ..
    have hv₂ : v₂.regs .rdx = u.regs .rdi &&& 127 := by rw [Cpu.set_same,hv₁]
    have hrax₂ : v₂.regs .rax = lay.place (.nop 0) := by
      rw [Cpu.set_of_ne _ _ _ _ (by decide),Cpu.set_of_ne _ _ _ _ (by decide),hrax]
    rw [Cpu.set_same,hv₂,hrax₂,BitVec.add_assoc,masked_twice]
    exact (hspaced j hj).symm
  have htop : Goes lay env ⟨u,lay.place (Kernel.indirectVariable.topFrom 0)⟩
      ((List.range 3).map .top) ⟨d,lay.place (.jump 0)⟩ := top_goes env lay u
  have hjump : Goes lay env ⟨d,lay.place (.jump 0)⟩ [.jump 0] ⟨d,d.regs .rdx⟩ :=
    goes_one rfl (show 0 < 1 from Nat.one_pos)
  have hnops : Goes lay env ⟨d,lay.place (.nop j)⟩
      ((List.range (nopCount-j)).map (fun k => .nop (j+k))) ⟨d,lay.place .again⟩ := by
    have hsteps : Goes lay env ⟨d,lay.place (Kernel.nopFrom (j+0))⟩
        ((List.range (nopCount-j)).map (fun k => .nop (j+k)))
        ⟨d,lay.place (Kernel.nopFrom (j+(nopCount-j)))⟩ :=
      goes_steps (fun k => ⟨d,lay.place (Kernel.nopFrom (j+k))⟩) (fun k => Label.nop (j+k)) _
        (fun k hk => congrArg lay.place (if_pos (by omega)))
        (fun k hk => ⟨show j+k < nopCount by omega,rfl⟩) (fun _ _ => rfl)
    have hfirst : Kernel.nopFrom (j+0) = .nop j := if_pos hj
    have hlast : Kernel.nopFrom (j+(nopCount-j)) = .again := if_neg (by omega)
    rwa [hfirst,hlast] at hsteps
  rw [hrdx] at hjump
  have hregs : ∀ r, r ≠ .rdx → d.regs r = u.regs r := fun r hr => by
    rw [Cpu.set_of_ne _ _ _ _ hr,Cpu.set_of_ne _ _ _ _ hr,Cpu.set_of_ne _ _ _ _ hr]
  exact ⟨d,htop.append (hjump.append hnops),⟨(hregs .rax (by decide)).trans hrax,
    hregs .rdi (by decide)⟩,⟨fun r hr => hregs r (fun heq => hr (heq ▸ by decide)),
    fun _ _ => rfl⟩⟩

end Variable

/-- What the trips rely on: the kernel with the nops takes their address once. -/
def Ready {K : Kernel} (lay : Layout K.program) (u : Cpu) : Prop :=
  K = .indirectVariable → u.regs .rax = lay.place (.nop 0)

/-- A trip. -/
theorem trip_goes {K : Kernel} (lay : Layout K.program) (hspaced : K.Spaced lay) {u : Cpu}
    (hready : Ready lay u) :
    ∃ d, Goes lay env ⟨u,lay.place (K.topFrom 0)⟩ (K.tripLabels (u.regs .rdi))
        ⟨d,lay.place .again⟩ ∧
      d.regs .rdi = u.regs .rdi ∧ Ready lay d ∧ Kept scratch 0 u d := by
  cases K with
  | jmpForward => exact ⟨u,jmpForward_trip env lay u,rfl,hready,Kept.refl⟩
  | indirectForward bytes =>
    obtain ⟨d,hgoes,hrdi,hkept⟩ := indirectForward_trip env lay hspaced u
    exact ⟨d,hgoes,hrdi,fun h => (by cases h),hkept⟩
  | indirectVariable =>
    obtain ⟨d,hgoes,⟨hrax,hrdi⟩,hkept⟩ :=
      indirectVariable_trip env lay hspaced (hready rfl)
    exact ⟨d,hgoes,hrdi,fun _ => hrax,hkept⟩

/-- The code in front of the loop. -/
lemma enter_goes {K : Kernel} (lay : Layout K.program) (c : Cpu) :
    ∃ e, Goes lay env ⟨c,lay.place (.enter 0)⟩
        ((List.range K.enterCode.length).map .enter ++ [.start]) ⟨e,lay.place (K.topFrom 0)⟩ ∧
      Ready lay e ∧ Kept scratch 0 c e ∧ e.regs .rdi = c.regs .rdi := by
  let e := K.enterCode.foldl (Straight.exec lay env) c
  have henter : Goes lay env ⟨c,lay.place (K.enterFrom 0)⟩
      ((List.range K.enterCode.length).map .enter)
      ⟨e,lay.place (K.enterFrom K.enterCode.length)⟩ :=
    goes_straight c (fun _ hk => congrArg _ (List.getElem_eq_getD _).symm) (fun _ _ => rfl)
      (fun _ hk => if_pos hk) (fun _ hk => hk)
  have hend : K.enterFrom K.enterCode.length = .start := if_neg (lt_irrefl _)
  have hbegin : K.enterFrom 0 = .enter 0 := by cases K <;> rfl
  have hstart : Goes lay env ⟨e,lay.place .start⟩ [.start] ⟨e,lay.place (K.topFrom 0)⟩ :=
    goes_one rfl trivial
  rw [hbegin,hend] at henter
  refine ⟨e,henter.append hstart,fun h => ?_,?_,?_⟩
  · subst h
    exact Cpu.set_same ..
  · cases K with
    | indirectVariable => exact (Kept.refl.set (by decide) _).set (by decide) _
    | _ => exact Kept.refl.set (by decide) _
  · cases K <;> rfl

/-- A whole run. -/
theorem kernel_goes {K : Kernel} (lay : Layout K.program) (hspaced : K.Spaced lay) (c : Cpu) :
    ∃ t, Goes lay env ⟨c,lay.place (.enter 0)⟩ (K.labels (c.regs .rdi)) t ∧
      Returned 0 ⟨c,lay.place (.enter 0)⟩ t := by
  obtain ⟨e,henter,hready,hkept,hrdi⟩ := enter_goes env lay c
  have hcode : K.program.code .again = .decJnz .rdi (K.topFrom 0) := rfl
  have hhas : K.program.has .again := trivial
  obtain ⟨d,hloop,-,hkept'⟩ : ∃ d, Goes lay env ⟨e,lay.place (K.topFrom 0)⟩
      ((List.range (decTrips (e.regs .rdi))).flatMap
        (fun k => K.tripLabels (e.regs .rdi-BitVec.ofNat 64 k) ++ [.again]))
      ⟨d,lay.place .nop2⟩ ∧ (Ready lay d ∧ Kept scratch 0 c d) := by
    refine Goes.loop (I := fun _ d => Ready lay d ∧ Kept scratch 0 c d) hcode hhas
      (fun k _ u hu hcounter => ?_) ⟨hready,hkept⟩
    obtain ⟨d,hgoes,hd,hready',hd'⟩ := trip_goes env lay hspaced hu.1
    rw [hcounter] at hgoes
    refine ⟨d,hgoes,hd,fun h => ?_,(hu.2.trans (by decide) hd').set (by decide) _⟩
    rw [Cpu.set_of_ne _ _ _ _ (by decide)]
    exact hready' h
  have hnop : Goes lay env ⟨d,lay.place .nop2⟩ [.nop2] ⟨d,lay.place .leave⟩ :=
    goes_one rfl trivial
  obtain ⟨t,hleave,hback,-⟩ := hkept'.leave_goes (by decide) (by decide)
    (show K.program.code .leave = .ret from rfl) trivial (lay.place (.enter 0))
  rw [hrdi] at hloop
  exact ⟨t,(henter.append hloop).append (hnop.append hleave),hback⟩

end Run

open Kernel (target)

/-- One trip later the target is the nop before, and behind the first one comes the last one. -/
lemma target_sub (x : Word) (k : ℕ) :
    (target (x-BitVec.ofNat 64 k)+k)%nopCount = target x := by
  have hsub : (x-BitVec.ofNat 64 k).toNat = (2^64-k%2^64+x.toNat)%2^64 := by
    rw [BitVec.toNat_sub,BitVec.toNat_ofNat]
  rw [target,target,nopCount,hsub]
  omega

/-- In as many trips as there are nops, each of them is the target of one trip. -/
theorem target_once (x : Word) (start : ℕ) {j : ℕ} (hj : j < nopCount) :
    ∃! k, (start ≤ k ∧ k < start+nopCount) ∧ target (x-BitVec.ofNat 64 k) = j := by
  have hlt : ∀ y, target y < nopCount := fun y => Nat.mod_lt _ (by decide)
  -- the targets go down, so the trip is as far behind the start as the start's target is above this
  let first := target (x-BitVec.ofNat 64 start)
  let k := start+(first+(nopCount-j))%nopCount
  have hfirst : first < nopCount := hlt _
  have hstart : (first+start)%nopCount = target x := target_sub x start
  have hk := target_sub x k
  refine ⟨k,⟨⟨Nat.le_add_right _ _,?_⟩,?_⟩,fun k' hk' => ?_⟩
  · exact Nat.add_lt_add_left (Nat.mod_lt _ (by decide)) _
  · have hlt' := hlt (x-BitVec.ofNat 64 k)
    generalize target (x-BitVec.ofNat 64 k) = y at hk hlt' ⊢
    simp only [nopCount,k] at hj hk hlt' hstart hfirst
    omega
  · obtain ⟨⟨hle,hlt'⟩,heq⟩ := hk'
    have hk' := target_sub x k'
    rw [heq] at hk'
    simp only [nopCount,k] at hj hk' hlt' hstart hfirst ⊢
    omega

/-- A kernel returns after its iterations with memory as it was, and passes its jumps in order: the
direct ones, the indirect ones through the blocks, or the one to a nop and from there to the last nop.
In as many iterations in a row as there are nops, that one goes to each of them once. -/
theorem jumps_run (K : Kernel) (lay : Layout K.program) (env : Env) (c : Cpu)
    (hspaced : K.Spaced lay) (hret : lay.find (c.read (c.regs .rsp) 8) = none) :
    let s : State := ⟨c,lay.place (.enter 0)⟩
    let x := c.regs .rdi
    (∀ fuel, (K.labels x).length < fuel →
      run lay env fuel s = some ((K.labels x).map some)) ∧
    (∃ t, Goes lay env s (K.labels x) t ∧ Returned 0 s t) ∧
    (K = .indirectVariable → ∀ start j, j < nopCount →
      ∃! k, (start ≤ k ∧ k < start+nopCount) ∧ target (x-BitVec.ofNat 64 k) = j) := by
  intro s x
  obtain ⟨t,hgoes,hback⟩ := kernel_goes env lay hspaced c
  exact ⟨fun fuel hfuel => hback.run_eq_some hgoes hret hfuel,⟨t,hgoes,hback⟩,
    fun _ start j hj => target_once x start hj⟩

def front : List Label :=
  [.enter 0,.enter 1,.enter 2,.start,.top 0,.top 1,.top 2,.jump 0]

/-- A layout of the kernel with the nops. -/
def nopsLayout : Layout Kernel.indirectVariable.program :=
  Layout.ofList _ 2 (front ++ (List.range nopCount).map .nop ++ [.again,.nop2,.leave])
    (fun l hl => by
      cases l with
      | enter k =>
        have hk : k < 3 := hl
        obtain rfl | rfl | rfl : k = 0 ∨ k = 1 ∨ k = 2 := by omega
        all_goals simp [front]
      | top k =>
        have hk : k < 3 := hl
        obtain rfl | rfl | rfl : k = 0 ∨ k = 1 ∨ k = 2 := by omega
        all_goals simp [front]
      | before i =>
        obtain ⟨bytes,h⟩ := hl.2
        cases h
      | jump i =>
        obtain rfl : i = 0 := Nat.lt_one_iff.mp hl
        simp [front]
      | nop k => simp [show k < nopCount from hl.1]
      | _ => simp [front]) Nat.two_pos (by simp [front,nopCount])

lemma nopsLayout_nop {k : ℕ} (hk : k < nopCount) :
    nopsLayout.place (.nop k) = BitVec.ofNat 64 (2*(8+k)) := by
  have hmem : Label.nop k ∈ (List.range nopCount).map .nop :=
    List.mem_map_of_mem (List.mem_range.mpr hk)
  have hfront : Label.nop k ∉ front := by simp [front]
  have hnodup : ((List.range nopCount).map Label.nop).Nodup :=
    List.Nodup.map (fun _ _ h => Label.nop.inj h) List.nodup_range
  have hidx : ((List.range nopCount).map Label.nop).idxOf (.nop k) = k := by
    have hget := hnodup.idxOf_getElem k (by rwa [List.length_map,List.length_range])
    rwa [List.getElem_map,List.getElem_range] at hget
  have hall : (front ++ (List.range nopCount).map Label.nop ++
      [Label.again,.nop2,.leave]).idxOf (Label.nop k) = 8+k := by
    rw [List.idxOf_append_of_mem (List.mem_append_right _ hmem),
      List.idxOf_append_of_notMem hfront,hidx]
    rfl
  exact congrArg (fun i => BitVec.ofNat 64 (2*i)) hall

theorem jumps_run_nops :
    let s : State := ⟨caller,nopsLayout.place (.enter 0)⟩
    (∀ fuel, (Kernel.indirectVariable.labels 100).length < fuel →
      run nopsLayout zeroEnv fuel s = some ((Kernel.indirectVariable.labels 100).map some)) ∧
    (∃ t, Goes nopsLayout zeroEnv s (Kernel.indirectVariable.labels 100) t ∧ Returned 0 s t) ∧
    (Kernel.indirectVariable = .indirectVariable → ∀ start j, j < nopCount →
      ∃! k, (start ≤ k ∧ k < start+nopCount) ∧ target (100-BitVec.ofNat 64 k) = j) := by
  refine jumps_run .indirectVariable nopsLayout zeroEnv caller (fun k hk => ?_) (by decide)
  rw [nopsLayout_nop hk,nopsLayout_nop (by decide),Nat.mul_add,BitVec.ofNat_add]

end UarchBench.ForwardJumps
