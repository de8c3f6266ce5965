import UarchBench.Kernels.Calls

/-! The benchmarks of calls: of an empty function, of a chain of functions, of one that uses the stack
and of one that adds to its own return address. -/
namespace UarchBench.CallBenches
open Base Machine Calls

inductive Label
  | prologue (k : ℕ)
  | call (i : ℕ)
  | pad (i k : ℕ)
  | again
  | leave
  /-- The instructions of the function that calls `d` others. -/
  | func (d k : ℕ)
  deriving DecidableEq, Repr

structure Kernel where
  prologue : List (Straight Label)
  reps : ℕ
  /-- How many functions the called function calls, one from the other. -/
  depth : ℕ
  /-- The number of `add eax, 1` behind a call. -/
  pads : ℕ
  /-- The function that calls no other one. -/
  body : List (Straight Label)

namespace Kernel
variable (K : Kernel)

def entry (i : ℕ) : Label := if i < K.reps then .call i else .again
def padFrom (i k : ℕ) : Label := if k < K.pads then .pad i k else K.entry (i+1)
def prologueFrom (k : ℕ) : Label := if k < K.prologue.length then .prologue k else K.entry 0

def addEax : Straight Label := .op (.op .add .w32 .rax (.imm 1))

def code : Label → Calls.Instr Label
  | .prologue k => .straight (K.prologue.getD k (.op .nop))
  | .call _ => .call (.func K.depth 0)
  | .pad _ _ => .straight addEax
  | .again => .decJnz .rdi (K.entry 0)
  | .leave => .ret
  | .func 0 k => if k < K.body.length then .straight (K.body.getD k (.op .nop)) else .ret
  | .func (d+1) 0 => .call (.func d 0)
  | .func (_+1) (_+1) => .ret

def next : Label → Label
  | .prologue k => K.prologueFrom (k+1)
  | .call i => K.padFrom i 0
  | .pad i k => K.padFrom i (k+1)
  | .again => .leave
  | .leave => .prologue 0
  | .func d k => .func d (k+1)

def has : Label → Prop
  | .prologue k => k < K.prologue.length
  | .call i => i < K.reps
  | .pad i k => i < K.reps ∧ k < K.pads
  | .again | .leave => True
  | .func 0 k => k ≤ K.body.length
  | .func (d+1) k => d < K.depth ∧ k ≤ 1

def program : Program Label := ⟨K.code,K.next,K.has⟩

end Kernel

def xorEax : Straight Label := .op (.op .xor .w32 .rax (.reg .rax))

def denseCalls : Kernel := ⟨[],16,0,0,[]⟩
def sparseCalls (n : ℕ) : Kernel := ⟨[xorEax],16,0,n,[]⟩
/-- The calls of `call_chain_3`. -/
def chainedCalls (n : ℕ) : Kernel := ⟨[xorEax],4,3,n,[]⟩
def pushpopCalls : Kernel := ⟨[xorEax],16,0,0,[.op (.push .rax),.op (.pop .rax)]⟩

def addrsp (n : Word) : List (Straight Label) :=
  List.replicate 2 (.op (.opMem .add .w64 ⟨.rax,-n,none⟩ (.imm 0)))

def addrspCalls (n : Word) : Kernel := ⟨[.op (.lea .rax ⟨.rsp,-8,none⟩)],16,0,0,addrsp n⟩

def kernels : List Kernel :=
  denseCalls::(List.range 8).map sparseCalls ++ (List.range 4).map chainedCalls ++
    [pushpopCalls,addrspCalls 0,addrspCalls 8]

namespace Kernel
variable (K : Kernel)

/-- The labels of a function with those of the functions that it calls. -/
def funcLabels : ℕ → List Label
  | 0 => (List.range (K.body.length+1)).map (.func 0)
  | d+1 => .func (d+1) 0::funcLabels d ++ [.func (d+1) 1]

def repLabels (i : ℕ) : List Label :=
  .call i::K.funcLabels K.depth ++ (List.range K.pads).map (.pad i)

def labels (trips : ℕ) : List Label :=
  (List.range K.prologue.length).map .prologue ++
    (List.range trips).flatMap (fun _ => (List.range K.reps).flatMap K.repLabels ++ [.again]) ++
    [.leave]

end Kernel

/-- The start of a function. -/
def Label.isEntry : Label → Bool
  | .func _ 0 => true
  | _ => false

lemma countP_isEntry_map (mk : ℕ → Label) (n : ℕ) (h : ∀ k, (mk k).isEntry = false) :
    ((List.range n).map mk).countP Label.isEntry = 0 := by
  rw [List.countP_map,List.countP_eq_zero]
  exact fun k _ => by simp [h k]

lemma Kernel.countP_funcLabels (K : Kernel) (d : ℕ) :
    (K.funcLabels d).countP Label.isEntry = d+1 := by
  induction d with
  | zero =>
    rw [Kernel.funcLabels,List.range_succ_eq_map,List.map_cons,List.map_map,List.countP_cons,
      countP_isEntry_map _ _ (fun _ => rfl)]
    rfl
  | succ d ih =>
    rw [Kernel.funcLabels,List.countP_append,List.countP_cons,ih]
    rfl

/-- The functions that are called, directly or by another one. -/
theorem Kernel.countP_labels (K : Kernel) (trips : ℕ) :
    (K.labels trips).countP Label.isEntry = trips*(K.reps*(K.depth+1)) := by
  have hrep : ∀ i, (K.repLabels i).countP Label.isEntry = K.depth+1 := fun i => by
    rw [Kernel.repLabels,List.countP_append,List.countP_cons,K.countP_funcLabels,
      countP_isEntry_map _ _ (fun _ => rfl)]
    rfl
  have htrip : ((List.range K.reps).flatMap K.repLabels ++ [Label.again]).countP
      Label.isEntry = K.reps*(K.depth+1) := by
    rw [List.countP_append,List.countP_flatMap]
    simp only [Function.comp_def,hrep,List.map_const',List.length_range,List.sum_replicate_nat]
    rfl
  rw [Kernel.labels,List.countP_append,List.countP_append,List.countP_flatMap,
    countP_isEntry_map _ _ (fun _ => rfl)]
  simp only [Function.comp_def,htrip,List.map_const',List.length_range,List.sum_replicate_nat,
    Nat.zero_add]
  rfl

section Run
variable {K : Kernel} {lay : Layout K.program} {env : Env}

/-- A body that gives the registers back and uses at most eight bytes of the stack. -/
def Kernel.Restores (K : Kernel) (lay : Layout K.program) (env : Env) : Prop :=
  ∀ c, (K.body.foldl (Straight.exec lay env) c).regs = c.regs ∧
    SameAbove (c.regs .rsp) 8 c.mem (K.body.foldl (Straight.exec lay env) c).mem

theorem func_callable (hbody : K.Restores lay env) (hdepth : K.depth ≤ 3) {d : ℕ}
    (hd : d ≤ K.depth) : Callable lay env (.func d 0) (K.funcLabels d) (8*d+8) := by
  induction d with
  | zero =>
    refine callable_straight (fun k hk => ?_) (if_neg (lt_irrefl _))
      (fun _ _ => rfl) (fun _ hk => hk) (by decide) hbody
    refine (if_pos hk).trans (congrArg _ ?_)
    exact (List.getElem_eq_getD _).symm
  | succ d ih =>
    exact (ih (by omega)).wrap (by omega) rfl rfl rfl ⟨hd,Nat.zero_le 1⟩ ⟨hd,le_rfl⟩

/-- `add eax, 1`. -/
def inc (x : Word) : Word := Width.w32.trunc (x+1)

lemma foldl_addEax (n : ℕ) (c : Cpu) :
    (List.replicate n Kernel.addEax).foldl (Straight.exec lay env) c =
      c.set .rax (inc^[n] (c.regs .rax)) := by
  induction n generalizing c with
  | zero =>
    rw [List.replicate_zero,List.foldl_nil,Cpu.set,Function.iterate_zero,id,
      Function.update_eq_self]
  | succ n ih =>
    have hone : Straight.exec lay env c Kernel.addEax = c.set .rax (inc (c.regs .rax)) := rfl
    rw [List.replicate_succ,List.foldl_cons,hone,ih,Cpu.set_same,Function.iterate_succ_apply,
      Cpu.set,Cpu.set,Cpu.set,Function.update_idem]

/-- A repetition: the call, and the additions behind it. -/
theorem rep_goes (hbody : K.Restores lay env) (hdepth : K.depth ≤ 3) {i : ℕ} (hi : i < K.reps)
    (c : Cpu) :
    ∃ d, Goes lay env ⟨c,lay.place (K.entry i)⟩ (K.repLabels i) ⟨d,lay.place (K.entry (i+1))⟩ ∧
      d.regs = Function.update c.regs .rax (inc^[K.pads] (c.regs .rax)) ∧
      SameAbove (c.regs .rsp) 40 c.mem d.mem := by
  have hentry : K.entry i = .call i := if_pos hi
  have hsite : K.program.code (.call i) = .call (.func K.depth 0) := rfl
  obtain ⟨d,hcall,hregs,hmem⟩ :=
    (func_callable hbody hdepth le_rfl).call_goes (by omega) hsite hi c
  have hpads : Goes lay env ⟨d,lay.place (K.padFrom i 0)⟩ ((List.range K.pads).map (.pad i))
      ⟨d.set .rax (inc^[K.pads] (d.regs .rax)),lay.place (K.padFrom i K.pads)⟩ := by
    have hcode : ∀ k (hk : k < (List.replicate K.pads Kernel.addEax).length),
        K.program.code (.pad i k) = .straight (List.replicate K.pads Kernel.addEax)[k] :=
      fun k hk => by rw [List.getElem_replicate]; rfl
    have hgoes : Goes lay env ⟨d,lay.place (K.padFrom i 0)⟩ _ _ :=
      goes_straight d hcode (fun _ _ => rfl)
        (fun k hk => if_pos (by rwa [List.length_replicate] at hk))
        (fun k hk => ⟨hi,by rwa [List.length_replicate] at hk⟩)
    rwa [foldl_addEax,List.length_replicate] at hgoes
  have hend : K.padFrom i K.pads = K.entry (i+1) := if_neg (lt_irrefl _)
  rw [hend] at hpads
  rw [hentry]
  refine ⟨_,hcall.append hpads,?_,hmem.mono (by omega)⟩
  rw [Cpu.set,hregs]

/-- The repetitions of a trip. -/
theorem reps_goes (hbody : K.Restores lay env) (hdepth : K.depth ≤ 3) (c : Cpu) :
    ∃ d, Goes lay env ⟨c,lay.place (K.entry 0)⟩ ((List.range K.reps).flatMap K.repLabels)
        ⟨d,lay.place .again⟩ ∧
      d.regs = Function.update c.regs .rax (inc^[K.reps*K.pads] (c.regs .rax)) ∧
      SameAbove (c.regs .rsp) 40 c.mem d.mem := by
  obtain ⟨t,hgoes,hpc,ht⟩ : ∃ t, Goes lay env ⟨c,lay.place (K.entry 0)⟩
      ((List.range K.reps).flatMap K.repLabels) t ∧ t.pc = lay.place (K.entry K.reps) ∧
      t.cpu.regs = Function.update c.regs .rax (inc^[K.reps*K.pads] (c.regs .rax)) ∧
      SameAbove (c.regs .rsp) 40 c.mem t.cpu.mem := by
    refine Goes.rounds (I := fun i t => t.pc = lay.place (K.entry i) ∧
      t.cpu.regs = Function.update c.regs .rax (inc^[i*K.pads] (c.regs .rax)) ∧
      SameAbove (c.regs .rsp) 40 c.mem t.cpu.mem) _ K.reps (fun i hi t ht => ?_)
      ⟨rfl,?_,fun _ _ => rfl⟩
    · obtain ⟨hpc,hregs,hmem⟩ := ht
      obtain ⟨d,hgoes,hregs',hmem'⟩ := rep_goes hbody hdepth hi t.cpu
      have hstart : t = ⟨t.cpu,lay.place (K.entry i)⟩ := by rw [← hpc]
      have hrsp : t.cpu.regs .rsp = c.regs .rsp := by
        rw [hregs,Function.update_of_ne (by decide)]
      rw [hstart]
      refine ⟨_,hgoes,rfl,?_,hmem.trans (hrsp ▸ hmem')⟩
      rw [hregs',hregs,Function.update_self,Function.update_idem,← Function.iterate_add_apply,
        Nat.succ_mul,Nat.add_comm]
    · rw [Nat.zero_mul,Function.iterate_zero,id,Function.update_eq_self]
  have hend : K.entry K.reps = .again := if_neg (lt_irrefl _)
  rw [hend] at hpc
  refine ⟨t.cpu,?_,ht⟩
  rwa [← hpc]

/-- The loop. -/
theorem loop_goes (hbody : K.Restores lay env) (hdepth : K.depth ≤ 3) (c : Cpu) :
    ∃ d, Goes lay env ⟨c,lay.place (K.entry 0)⟩ ((List.range (decTrips (c.regs .rdi))).flatMap
        (fun _ => (List.range K.reps).flatMap K.repLabels ++ [.again])) ⟨d,lay.place .leave⟩ ∧
      d.regs .rax = inc^[decTrips (c.regs .rdi)*(K.reps*K.pads)] (c.regs .rax) ∧
      Kept [.rax,.rdi] 40 c d := by
  refine Goes.loop (I := fun k d => d.regs .rax = inc^[k*(K.reps*K.pads)] (c.regs .rax) ∧
    Kept [.rax,.rdi] 40 c d) rfl trivial (fun k _ u hu _ => ?_) ⟨?_,Kept.refl⟩
  · obtain ⟨hrax,hkept⟩ := hu
    obtain ⟨d,hgoes,hregs,hmem⟩ := reps_goes hbody hdepth u
    have hkept' : Kept [.rax,.rdi] 40 u d := ⟨fun r hr => by
      rw [hregs,Function.update_of_ne (ne_of_mem_of_not_mem (List.mem_cons_self ..) hr).symm],hmem⟩
    refine ⟨d,hgoes,?_,?_,(hkept.trans (by decide) hkept').set (by decide) _⟩
    · rw [hregs,Function.update_of_ne (by decide)]
    · rw [Cpu.set_of_ne _ _ _ _ (by decide),hregs,Function.update_self,hrax,
        ← Function.iterate_add_apply,Nat.succ_mul,Nat.add_comm]
  · rw [Nat.zero_mul,Function.iterate_zero,id]

/-- A kernel whose prologue only sets `rax`. -/
theorem kernel_goes (hbody : K.Restores lay env) (hdepth : K.depth ≤ 3) {c : Cpu} {x : Word}
    (hprologue : K.prologue.foldl (Straight.exec lay env) c = c.set .rax x) :
    ∃ t, Goes lay env ⟨c,lay.place (K.prologueFrom 0)⟩ (K.labels (decTrips (c.regs .rdi))) t ∧
      t.cpu.regs .rax = inc^[decTrips (c.regs .rdi)*(K.reps*K.pads)] x ∧
      Returned 40 ⟨c,lay.place (K.prologueFrom 0)⟩ t := by
  have hstart : Goes lay env ⟨c,lay.place (K.prologueFrom 0)⟩
      ((List.range K.prologue.length).map .prologue)
      ⟨K.prologue.foldl (Straight.exec lay env) c,
        lay.place (K.prologueFrom K.prologue.length)⟩ :=
    goes_straight c (fun _ hk => congrArg _ (List.getElem_eq_getD _).symm) (fun _ _ => rfl)
      (fun _ hk => if_pos hk) (fun _ hk => hk)
  have hend : K.prologueFrom K.prologue.length = K.entry 0 := if_neg (lt_irrefl _)
  rw [hprologue,hend] at hstart
  obtain ⟨d,hloop,hrax,hkept⟩ := loop_goes hbody hdepth (c.set .rax x)
  have hrdi : (c.set .rax x).regs .rdi = c.regs .rdi := Cpu.set_of_ne _ _ _ _ (by decide)
  rw [hrdi] at hloop hrax
  rw [Cpu.set_same] at hrax
  have hset : Kept [.rax,.rdi] 40 c (c.set .rax x) := Kept.refl.set (by decide) x
  obtain ⟨t,hleave,hback,hregs⟩ := (hset.trans (by decide) hkept).leave_goes (by decide) (by decide)
    (show K.program.code .leave = .ret from rfl) trivial (lay.place (K.prologueFrom 0))
  exact ⟨t,(hstart.append hloop).append hleave,(hregs .rax (by decide)).trans hrax,hback⟩

lemma restores_empty (h : K.body = []) : K.Restores lay env := fun c => by
  rw [h]
  exact ⟨rfl,fun _ _ => rfl⟩

lemma restores_pushpop (h : K.body = [.op (.push .rax),.op (.pop .rax)]) :
    K.Restores lay env := fun c => by
  let c₁ := c.push (c.regs .rax)
  rw [h]
  change ((c₁.set .rsp (c₁.regs .rsp+8)).set .rax (c₁.read (c₁.regs .rsp) 8)).regs = _ ∧
    SameAbove _ 8 c.mem c₁.mem
  have hrsp : c₁.regs .rsp = c.regs .rsp-8 := push_rsp c _
  refine ⟨funext fun r => ?_,push_sameAbove c _⟩
  by_cases hrax : r = .rax
  · rw [hrax,Cpu.set_same,hrsp,push_read]
  rw [Cpu.set_of_ne _ _ _ _ hrax]
  by_cases hr : r = .rsp
  · rw [hr,Cpu.set_same,hrsp]
    exact BitVec.sub_add_cancel _ _
  · rw [Cpu.set_of_ne _ _ _ _ hr,push_regs _ _ hr]

/-- To add zero to a word in memory changes nothing. -/
lemma addZero_exec (a : Addr) (c : Cpu) :
    Machine.exec env c (.opMem .add .w64 a (.imm 0)) = c := by
  have hlt : c.mem.load (a.eval c) 8 < 2^64 := WrapMemory.load_lt c.mem (a.eval c) 8
  have hread : (c.read (a.eval c) 8+0#64).toNat = c.mem.load (a.eval c) 8 := by
    rw [BitVec.add_zero,Cpu.read,BitVec.toNat_ofNat,Nat.mod_eq_of_lt hlt]
  change c.write (a.eval c) 8 (c.read (a.eval c) 8+0#64) = c
  rw [Cpu.write,hread,WrapMemory.store_load c.mem _ (by decide)]

lemma restores_addrsp {n : Word} (h : K.body = addrsp n) : K.Restores lay env := fun c => by
  have hsame : K.body.foldl (Straight.exec lay env) c = c := by
    rw [h,addrsp,List.replicate_succ,List.replicate_one,List.foldl_cons,List.foldl_cons,
      List.foldl_nil,Straight.exec,addZero_exec,Straight.exec,addZero_exec]
  rw [hsame]
  exact ⟨rfl,fun _ _ => rfl⟩

lemma iterate_inc (n : ℕ) : inc^[n] 0#64 = BitVec.ofNat 64 (n%2^32) := by
  induction n with
  | zero => rfl
  | succ n ih =>
    rw [Function.iterate_succ_apply',ih]
    apply BitVec.eq_of_toNat_eq
    rw [inc,Width.trunc,BitVec.toNat_setWidth,BitVec.toNat_setWidth,BitVec.toNat_add,
      BitVec.toNat_ofNat,BitVec.toNat_ofNat]
    change (n%2^32%2^64+1)%2^64%2^32%2^64 = _
    omega

end Run

/-- What a run of a kernel is: sixteen calls in each trip, counted with the calls of the functions, and
the return to the caller. Behind a kernel that starts from zero, `eax` has the number of additions. -/
structure KernelRun (K : Kernel) (lay : Layout K.program) (env : Env) (s : State) (trips : ℕ) :
    Prop where
  run : ∀ fuel, (K.labels trips).length < fuel →
    run lay env fuel s = some ((K.labels trips).map some)
  calls : (K.labels trips).countP Label.isEntry = trips*16
  returned : ∃ t, Goes lay env s (K.labels trips) t ∧ Returned 40 s t ∧
    (K.prologue = [xorEax] → t.cpu.regs .rax = BitVec.ofNat 64 (trips*(K.reps*K.pads)%2^32))

/-- A kernel that is made of its parts as the kernels below are. -/
lemma run_of_restores {K : Kernel} {lay : Layout K.program} {env : Env} {c : Cpu}
    (hbody : K.Restores lay env) (hdepth : K.depth ≤ 3) (hcalls : K.reps*(K.depth+1) = 16)
    (hprologue : K.prologue = [] ∨ K.prologue = [xorEax] ∨
      K.prologue = [.op (.lea .rax ⟨.rsp,-8,none⟩)])
    (hret : lay.find (c.read (c.regs .rsp) 8) = none) :
    KernelRun K lay env ⟨c,lay.place (K.prologueFrom 0)⟩ (decTrips (c.regs .rdi)) := by
  have hset : ∃ x, K.prologue.foldl (Straight.exec lay env) c = c.set .rax x ∧
      (K.prologue = [xorEax] → x = 0) := by
    rcases hprologue with h | h | h
    · refine ⟨c.regs .rax,?_,fun heq => ?_⟩
      · rw [h,List.foldl_nil,Cpu.set,Function.update_eq_self]
      · rw [h] at heq
        cases heq
    · refine ⟨0,?_,fun _ => rfl⟩
      rw [h]
      change c.set .rax (Width.w32.trunc (c.regs .rax ^^^ c.regs .rax)) = _
      rw [BitVec.xor_self]
      rfl
    · refine ⟨c.regs .rsp+-8,by rw [h]; rfl,fun heq => ?_⟩
      rw [h] at heq
      cases heq
  obtain ⟨x,hx,hzero⟩ := hset
  obtain ⟨t,hgoes,hrax,hback⟩ := kernel_goes hbody hdepth hx
  refine ⟨fun fuel hfuel => hback.run_eq_some hgoes hret hfuel,by rw [K.countP_labels,hcalls],
    t,hgoes,hback,fun h => ?_⟩
  rw [hrax,hzero h]
  exact iterate_inc _

/-- The kernels make as many calls in a trip as they are registered with, and return to their
caller. -/
theorem kernels_call (K : Kernel) (hK : K ∈ kernels) (lay : Layout K.program) (env : Env) (c : Cpu)
    (hret : lay.find (c.read (c.regs .rsp) 8) = none) :
    KernelRun K lay env ⟨c,lay.place (K.prologueFrom 0)⟩ (decTrips (c.regs .rdi)) := by
  simp only [kernels,List.cons_append,List.mem_cons,List.mem_append,List.mem_map,
    List.not_mem_nil,or_false] at hK
  rcases hK with rfl | (⟨n,-,rfl⟩ | ⟨n,-,rfl⟩) | rfl | rfl | rfl
  · exact run_of_restores (restores_empty rfl) (Nat.zero_le _) rfl (Or.inl rfl) hret
  · exact run_of_restores (restores_empty rfl) (Nat.zero_le _) rfl (Or.inr (Or.inl rfl)) hret
  · exact run_of_restores (restores_empty rfl) le_rfl rfl (Or.inr (Or.inl rfl)) hret
  · exact run_of_restores (restores_pushpop rfl) (Nat.zero_le _) rfl (Or.inr (Or.inl rfl)) hret
  · exact run_of_restores (restores_addrsp rfl) (Nat.zero_le _) rfl (Or.inr (Or.inr rfl)) hret
  · exact run_of_restores (restores_addrsp rfl) (Nat.zero_le _) rfl (Or.inr (Or.inr rfl)) hret

/-- A layout of a kernel that calls the chain. -/
def chainedLayout : Layout (chainedCalls 1).program :=
  Layout.ofList _ 1 ([[.prologue 0],(List.range 4).flatMap (fun i => [.call i,.pad i 0]),
    [.again,.leave],(List.range 4).flatMap (fun d => [.func d 0,.func d 1])].flatten)
    (fun l hl => by
      cases l with
      | prologue k =>
        obtain rfl : k = 0 := Nat.lt_one_iff.mp hl
        decide
      | call i =>
        have hi : i < 4 := hl
        simp [hi]
      | pad i k =>
        obtain ⟨hi,hk⟩ : i < 4 ∧ k < 1 := hl
        simp [hi,Nat.lt_one_iff.mp hk]
      | again => decide
      | leave => decide
      | func d k =>
        have hd : d < 4 ∧ k < 2 := by
          rcases d with - | d
          · exact ⟨by decide,lt_of_le_of_lt (show k ≤ 0 from hl) (by decide)⟩
          · obtain ⟨hd,hk⟩ : d < 3 ∧ k ≤ 1 := hl
            omega
        have hk : k = 0 ∨ k = 1 := by omega
        rcases hk with rfl | rfl <;> simp [hd.1]) Nat.one_pos (by decide)

theorem kernels_call_chained : KernelRun (chainedCalls 1) chainedLayout zeroEnv
    ⟨caller,chainedLayout.place (.prologue 0)⟩ 100 :=
  kernels_call (chainedCalls 1) (List.mem_append_left _ (List.mem_append_right _
    (List.mem_map_of_mem (List.mem_range.mpr (by decide))))) chainedLayout zeroEnv caller
    (by decide)

end UarchBench.CallBenches
