import UarchBench.Base.Stride
import UarchBench.Kernels.Calls

/-! Indirect calls, direct ones and through retpolines: the thunk takes its own return address from the
stack and returns to the target of the call. -/
namespace UarchBench.Retpoline
open Base Machine Calls

/-- How a kernel calls `r15`. -/
inductive Site
  | retpoCall (speculated : Machine.Instr)
  | indirect
  | none
  deriving DecidableEq, Repr

/-- The instructions of `retpo_call`, in order, and the indirect call. -/
inductive SitePart
  | jmpCall | jmpthunk | jmpRetpoline | call | callReg
  deriving DecidableEq, Repr

/-- The instructions of `retpoline_thunk`. -/
inductive ThunkPart
  | callTarget | loop | jmpLoop | target | ret
  deriving DecidableEq, Repr

inductive Label
  | prologue (k : ℕ)
  | top (k : ℕ)
  | site (i : ℕ) (p : SitePart)
  | pad (i k : ℕ)
  | again
  | epilogue (k : ℕ)
  | leave
  | thunk (p : ThunkPart)
  | func (j : ℕ)
  deriving DecidableEq, Repr

/-- A kernel: each trip of its loop has the code at `.top` and the repetitions of a call with what is
behind it. -/
structure Kernel where
  prologue : List (Straight Label)
  top : List (Straight Label)
  reps : ℕ
  site : Site
  pads : List (Straight Label)
  epilogue : List (Straight Label)
  /-- The number of empty functions. -/
  funcs : ℕ

namespace Kernel
variable (K : Kernel)

/-- The first label of a repetition; behind the last one the loop ends. -/
def entry (i : ℕ) : Label :=
  if i < K.reps then
    match K.site with
    | .retpoCall _ => .site i .jmpCall
    | .indirect => .site i .callReg
    | .none => .pad i 0
  else .again

def padFrom (i k : ℕ) : Label := if k < K.pads.length then .pad i k else K.entry (i+1)
def topFrom (k : ℕ) : Label := if k < K.top.length then .top k else K.entry 0
def prologueFrom (k : ℕ) : Label := if k < K.prologue.length then .prologue k else K.topFrom 0
def epilogueFrom (k : ℕ) : Label := if k < K.epilogue.length then .epilogue k else .leave

/-- The instruction of the thunk that is only speculated. -/
def speculated : Machine.Instr :=
  match K.site with
  | .retpoCall i => i
  | _ => .nop

def code : Label → Calls.Instr Label
  | .prologue k => .straight (K.prologue.getD k (.op .nop))
  | .top k => .straight (K.top.getD k (.op .nop))
  | .site i .jmpCall => .jmp (.site i .call)
  | .site _ .jmpthunk => .straight (.op (.push .r15))
  | .site _ .jmpRetpoline => .jmp (.thunk .callTarget)
  | .site i .call => .call (.site i .jmpthunk)
  | .site _ .callReg => .callReg .r15
  | .pad _ k => .straight (K.pads.getD k (.op .nop))
  | .again => .decJnz .rdi (K.topFrom 0)
  | .epilogue k => .straight (K.epilogue.getD k (.op .nop))
  | .leave => .ret
  | .thunk .callTarget => .call (.thunk .target)
  | .thunk .loop => .straight (.op K.speculated)
  | .thunk .jmpLoop => .jmp (.thunk .loop)
  | .thunk .target => .straight (.op (.lea .rsp ⟨.rsp,8,none⟩))
  | .thunk .ret => .ret
  | .func _ => .ret

def next : Label → Label
  | .prologue k => K.prologueFrom (k+1)
  | .top k => K.topFrom (k+1)
  | .site i .jmpCall => .site i .jmpthunk
  | .site i .jmpthunk => .site i .jmpRetpoline
  | .site i .jmpRetpoline => .site i .call
  | .site i .call => K.padFrom i 0
  | .site i .callReg => K.padFrom i 0
  | .pad i k => K.padFrom i (k+1)
  | .again => K.epilogueFrom 0
  | .epilogue k => K.epilogueFrom (k+1)
  | .leave => .func 0
  | .thunk .callTarget => .thunk .loop
  | .thunk .loop => .thunk .jmpLoop
  | .thunk .jmpLoop => .thunk .target
  | .thunk .target => .thunk .ret
  | .thunk .ret => .prologue 0
  | .func j => .func (j+1)

def has : Label → Prop
  | .prologue k => k < K.prologue.length
  | .top k => k < K.top.length
  | .site i .callReg => i < K.reps ∧ K.site = .indirect
  | .site i _ => i < K.reps ∧ ∃ s, K.site = .retpoCall s
  | .pad i k => i < K.reps ∧ k < K.pads.length
  | .again | .leave => True
  | .epilogue k => k < K.epilogue.length
  | .thunk _ => ∃ s, K.site = .retpoCall s
  | .func j => j < K.funcs

def program : Program Label := ⟨K.code,K.next,K.has⟩

end Kernel

def leaEmptyFunc : Straight Label := .leaLabel .r15 (.func 0) none

/-- The kernels that always call the same function. -/
def fixedTarget (reps : ℕ) (site : Site) (pads : List (Straight Label)) : Kernel :=
  ⟨[.op (.push .r15),leaEmptyFunc],[],reps,site,pads,[.op (.pop .r15)],1⟩

def denseNopPadding : Straight Label := .op .nop

def imulCount : ℕ := 20

def imuls (w : Width) (r : Reg) : List (Straight Label) :=
  List.replicate imulCount (.op (.op .imul w r (.imm 1)))

def retpolineDenseCall (speculated : Machine.Instr) : Kernel :=
  fixedTarget 32 (.retpoCall speculated) [denseNopPadding]
def retpolineSparseCallBase : Kernel := fixedTarget 8 .none (imuls .w32 .rax)
def retpolineSparseIndepCall (speculated : Machine.Instr) : Kernel :=
  fixedTarget 8 (.retpoCall speculated) (imuls .w64 .rax)
def retpolineSparseDepCall (speculated : Machine.Instr) : Kernel :=
  fixedTarget 8 (.retpoCall speculated) (imuls .w64 .r15)
def indirectDenseCallPred : Kernel := fixedTarget 32 .indirect [denseNopPadding]

/-- The kernel that goes through the functions. -/
def indirectDenseCallUnpred : Kernel where
  prologue := [.op (.push .r14),.op (.push .r15),.op (.op .xor .w64 .r14 (.reg .r14))]
  top := [.op (.op .add .w64 .r14 (.imm 11)),.op (.op .and .w64 .r14 (.imm 127)),
    .leaLabel .r15 (.func 0) (some .r14)]
  reps := 32
  site := .indirect
  pads := []
  epilogue := [.op (.pop .r15),.op (.pop .r14)]
  funcs := 128

section Call
variable {K : Kernel} {lay : Layout K.program} {env : Env}

/-- The state behind an indirect call of `r15` whose return address is that of a label. -/
def called (lay : Layout K.program) (i : ℕ) (c : Cpu) : State :=
  ⟨c.push (lay.place (K.padFrom i 0)),c.regs .r15⟩

def retpoCallLabels (i : ℕ) : List Label :=
  [.site i .jmpCall,.site i .call,.site i .jmpthunk,.site i .jmpRetpoline,.thunk .callTarget,
    .thunk .target,.thunk .ret]

/-- A retpoline has the effect of the indirect call, but for dead bytes below the stack. -/
theorem retpoCall_goes {speculated : Machine.Instr} (hsite : K.site = .retpoCall speculated)
    {i : ℕ} (hi : i < K.reps) (c : Cpu) :
    ∃ t, Goes lay env ⟨c,lay.place (.site i .jmpCall)⟩ (retpoCallLabels i) t ∧
      t.pc = (called lay i c).pc ∧ t.cpu.regs = (called lay i c).cpu.regs ∧
      ∀ x, 16 ≤ (x-(c.regs .rsp-24)).toNat → t.cpu.mem x = (called lay i c).cpu.mem x := by
  have hthunk : ∀ p, K.program.has (.thunk p) := fun _ => ⟨speculated,hsite⟩
  have hhas : ∀ p, p ≠ .callReg → K.program.has (.site i p) := fun p hp => by
    cases p
    case callReg => exact absurd rfl hp
    all_goals exact ⟨hi,speculated,hsite⟩
  let c₁ := c.push (lay.place (K.padFrom i 0))
  let c₂ := c₁.push (c₁.regs .r15)
  let c₃ := c₂.push (lay.place (.thunk .loop))
  let c₄ := c₃.set .rsp (c₃.regs .rsp+8)
  have hjmp : Goes lay env ⟨c,lay.place (.site i .jmpCall)⟩ [.site i .jmpCall]
      ⟨c,lay.place (.site i .call)⟩ := goes_one rfl (hhas .jmpCall (by decide))
  have hcall : Goes lay env ⟨c,lay.place (.site i .call)⟩ [.site i .call]
      ⟨c₁,lay.place (.site i .jmpthunk)⟩ := goes_one rfl (hhas .call (by decide))
  have hpush : Goes lay env ⟨c₁,lay.place (.site i .jmpthunk)⟩ [.site i .jmpthunk]
      ⟨c₂,lay.place (.site i .jmpRetpoline)⟩ := goes_one rfl (hhas .jmpthunk (by decide))
  have henter : Goes lay env ⟨c₂,lay.place (.site i .jmpRetpoline)⟩ [.site i .jmpRetpoline]
      ⟨c₂,lay.place (.thunk .callTarget)⟩ := goes_one rfl (hhas .jmpRetpoline (by decide))
  have htarget : Goes lay env ⟨c₂,lay.place (.thunk .callTarget)⟩ [.thunk .callTarget]
      ⟨c₃,lay.place (.thunk .target)⟩ := goes_one rfl (hthunk _)
  have hlea : Goes lay env ⟨c₃,lay.place (.thunk .target)⟩ [.thunk .target]
      ⟨c₄,lay.place (.thunk .ret)⟩ := goes_one rfl (hthunk _)
  have hret : Goes lay env ⟨c₄,lay.place (.thunk .ret)⟩ [.thunk .ret]
      ⟨c₄.set .rsp (c₄.regs .rsp+8),c₄.read (c₄.regs .rsp) 8⟩ := goes_one rfl (hthunk _)
  have hrsp₄ : c₄.regs .rsp = c₂.regs .rsp := by
    rw [Cpu.set_same,push_rsp]
    exact BitVec.sub_add_cancel _ _
  refine ⟨_,hjmp.append (hcall.append (hpush.append (henter.append (htarget.append
    (hlea.append hret))))),?_,?_,fun x hx => ?_⟩
  · have hread : c₄.read (c₄.regs .rsp) 8 = c₃.read (c₂.regs .rsp) 8 := by rw [hrsp₄]; rfl
    rw [hread,push_read_top,push_rsp,push_read,push_regs _ _ (by decide)]
    rfl
  · funext r
    by_cases hr : r = .rsp
    · rw [hr,Cpu.set_same,hrsp₄,push_rsp]
      exact BitVec.sub_add_cancel _ _
    · rw [Cpu.set_of_ne _ _ _ _ hr,Cpu.set_of_ne _ _ _ _ hr,push_regs _ _ hr,push_regs _ _ hr]
      rfl
  · have hrsp₁ : c₁.regs .rsp = c.regs .rsp-8 := push_rsp _ _
    have hrsp₂ : c₂.regs .rsp = c.regs .rsp-8-8 := by rw [push_rsp,hrsp₁]
    change c₃.mem x = c₁.mem x
    rw [push_mem c₂ _ (by rw [hrsp₂]; bv_omega),push_mem c₁ _ (by rw [hrsp₁]; bv_omega)]

/-- The labels of a call. -/
def Kernel.callLabels (K : Kernel) (i j : ℕ) : List Label :=
  match K.site with
  | .retpoCall _ => retpoCallLabels i ++ [.func j]
  | .indirect => [.site i .callReg,.func j]
  | .none => []

/-- The function returns behind the call. -/
lemma func_goes {i j : ℕ} (hj : j < K.funcs) {c : Cpu} {t : State}
    (hr15 : c.regs .r15 = lay.place (.func j)) (hpc : t.pc = (called lay i c).pc)
    (hregs : t.cpu.regs = (called lay i c).cpu.regs)
    (hmem : ∀ x, 16 ≤ (x-(c.regs .rsp-24)).toNat → t.cpu.mem x = (called lay i c).cpu.mem x) :
    ∃ d, Goes lay env t [.func j] ⟨d,lay.place (K.padFrom i 0)⟩ ∧ d.regs = c.regs ∧
      SameAbove (c.regs .rsp) 24 c.mem d.mem := by
  have hrsp : t.cpu.regs .rsp = c.regs .rsp-8 := by rw [hregs,called,push_rsp]
  have hread : t.cpu.read (t.cpu.regs .rsp) 8 = lay.place (K.padFrom i 0) := by
    rw [← push_read c (lay.place (K.padFrom i 0)),hrsp]
    refine congrArg (BitVec.ofNat 64) (WrapMemory.load_congr (by decide) (fun x hx => hmem x ?_))
    bv_omega
  have hret : Goes lay env t [.func j]
      ⟨t.cpu.set .rsp (t.cpu.regs .rsp+8),t.cpu.read (t.cpu.regs .rsp) 8⟩ :=
    goes_one (hpc.trans hr15) hj
  rw [hread] at hret
  refine ⟨_,hret,?_,fun x hx => ?_⟩
  · funext r
    by_cases hr : r = .rsp
    · rw [hr,Cpu.set_same,hrsp]
      exact BitVec.sub_add_cancel _ _
    · rw [Cpu.set_of_ne _ _ _ _ hr,hregs,called,push_regs _ _ hr]
  · change 24 ≤ (x-(c.regs .rsp-24)).toNat at hx
    rw [Cpu.set_mem,hmem x (by omega)]
    exact push_mem c _ (by bv_omega)

/-- A call, of any kind: behind it only dead bytes below the stack differ. -/
theorem call_goes (hpads : K.site = .none → K.pads ≠ []) {i j : ℕ} (hi : i < K.reps)
    (hj : j < K.funcs) {c : Cpu} (hr15 : c.regs .r15 = lay.place (.func j)) :
    ∃ d, Goes lay env ⟨c,lay.place (K.entry i)⟩ (K.callLabels i j)
        ⟨d,lay.place (K.padFrom i 0)⟩ ∧
      d.regs = c.regs ∧ SameAbove (c.regs .rsp) 24 c.mem d.mem := by
  rw [Kernel.entry,if_pos hi,Kernel.callLabels]
  cases hsite : K.site with
  | retpoCall speculated =>
    obtain ⟨t,hgoes,hpc,hregs,hmem⟩ := retpoCall_goes hsite hi c
    obtain ⟨d,hret,hd⟩ := func_goes hj hr15 hpc hregs hmem
    exact ⟨d,hgoes.append hret,hd⟩
  | indirect =>
    have hgoes : Goes lay env ⟨c,lay.place (.site i .callReg)⟩ [.site i .callReg]
        (called lay i c) := goes_one rfl ⟨hi,hsite⟩
    obtain ⟨d,hret,hd⟩ := func_goes hj hr15 rfl rfl (fun _ _ => rfl)
    exact ⟨d,hgoes.append hret,hd⟩
  | none =>
    have hpad : K.padFrom i 0 = .pad i 0 := if_pos (List.length_pos_iff.mpr (hpads hsite))
    rw [hpad]
    exact ⟨c,Path.nil _,rfl,fun _ _ => rfl⟩

end Call

/-- The registers that the kernels use, and those that a call may change. -/
def scratch : List Reg := [.rax,.rcx,.rdx,.rsi,.rdi,.r8,.r9,.r10,.r11,.r14,.r15]

/-- Straight code of a kernel leaves memory, the counter and the registers that are not scratch. -/
structure Plain (c d : Cpu) : Prop where
  mem : d.mem = c.mem
  rdi : d.regs .rdi = c.regs .rdi
  regs : ∀ r, r ∉ scratch → d.regs r = c.regs r

lemma Plain.kept {c d : Cpu} (h : Plain c d) : Kept scratch 24 c d :=
  ⟨h.regs,fun x _ => congrFun h.mem x⟩

lemma Plain.trans {b c d : Cpu} (h : Plain b c) (h' : Plain c d) : Plain b d :=
  ⟨h'.mem.trans h.mem,h'.rdi.trans h.rdi,fun r hr => (h'.regs r hr).trans (h.regs r hr)⟩

lemma Plain.set {c : Cpu} {r : Reg} (hr : r ∈ scratch) (hrdi : r ≠ .rdi) (v : Word) :
    Plain c (c.set r v) :=
  ⟨rfl,Cpu.set_of_ne _ _ _ _ hrdi.symm,
    fun _ hr' => Cpu.set_of_ne _ _ _ _ (ne_of_mem_of_not_mem hr hr').symm⟩

/-- What the loop of a kernel needs: registers that are `ready` at the start of a trip are `aimed` at
the function of the trip behind `.top`, and remain so. -/
structure Steady (K : Kernel) (lay : Layout K.program) (env : Env) (target : ℕ → ℕ)
    (ready aimed : ℕ → (Reg → Word) → Prop) : Prop where
  target_lt : ∀ k, target k < K.funcs
  pads_ne : K.site = .none → K.pads ≠ []
  aim : ∀ k regs, aimed k regs → regs .r15 = lay.place (.func (target k))
  top : ∀ k c, ready k c.regs → Plain c (K.top.foldl (Straight.exec lay env) c) ∧
    aimed k (K.top.foldl (Straight.exec lay env) c).regs
  pads : ∀ k c, aimed k c.regs → Plain c (K.pads.foldl (Straight.exec lay env) c) ∧
    aimed k (K.pads.foldl (Straight.exec lay env) c).regs
  next : ∀ k regs v, aimed k regs → ready (k+1) (Function.update regs .rdi v)

lemma straight_getD {seg : List (Straight Label)} {k : ℕ} (hk : k < seg.length) :
    Calls.Instr.straight (seg.getD k (.op .nop)) = .straight seg[k] :=
  congrArg _ (List.getElem_eq_getD _).symm

/-- The labels of a trip, up to the decrement. -/
def Kernel.tripLabels (K : Kernel) (j : ℕ) : List Label :=
  (List.range K.top.length).map .top ++
    (List.range K.reps).flatMap (fun i =>
      K.callLabels i j ++ (List.range K.pads.length).map (.pad i))

section Loop
variable {K : Kernel} {lay : Layout K.program} {env : Env} {target : ℕ → ℕ}
  {ready aimed : ℕ → (Reg → Word) → Prop}

/-- The repetitions of a trip. -/
lemma reps_goes (h : Steady K lay env target ready aimed) (k : ℕ) {c : Cpu}
    (hc : aimed k c.regs) :
    ∃ d, Goes lay env ⟨c,lay.place (K.entry 0)⟩ ((List.range K.reps).flatMap (fun i =>
        K.callLabels i (target k) ++ (List.range K.pads.length).map (.pad i)))
        ⟨d,lay.place .again⟩ ∧
      aimed k d.regs ∧ d.regs .rdi = c.regs .rdi ∧ Kept scratch 24 c d := by
  have hrounds : ∃ t, Goes lay env ⟨c,lay.place (K.entry 0)⟩ ((List.range K.reps).flatMap (fun i =>
        K.callLabels i (target k) ++ (List.range K.pads.length).map (.pad i))) t ∧
      t.pc = lay.place (K.entry K.reps) ∧ aimed k t.cpu.regs ∧ t.cpu.regs .rdi = c.regs .rdi ∧
        Kept scratch 24 c t.cpu := by
    refine Goes.rounds (I := fun i t => t.pc = lay.place (K.entry i) ∧ aimed k t.cpu.regs ∧
      t.cpu.regs .rdi = c.regs .rdi ∧ Kept scratch 24 c t.cpu) _ K.reps (fun i hi t ht => ?_)
      ⟨rfl,hc,rfl,Kept.refl⟩
    obtain ⟨hpc,haimed,hrdi,hkept⟩ := ht
    obtain ⟨d,hcall,hregs,hsame⟩ := call_goes h.pads_ne hi (h.target_lt k)
      (h.aim k _ haimed)
    have hd : Kept scratch 24 t.cpu d := ⟨fun r _ => congrFun hregs r,hsame⟩
    rw [← hregs] at haimed hrdi
    obtain ⟨hplain,haimed'⟩ := h.pads k d haimed
    have hpads : Goes lay env ⟨d,lay.place (K.padFrom i 0)⟩
        ((List.range K.pads.length).map (.pad i))
        ⟨K.pads.foldl (Straight.exec lay env) d,lay.place (K.padFrom i K.pads.length)⟩ :=
      goes_straight d (fun _ hk => straight_getD hk) (fun _ _ => rfl) (fun _ hk => if_pos hk)
        (fun _ hk => ⟨hi,hk⟩)
    have hend : K.padFrom i K.pads.length = K.entry (i+1) := if_neg (lt_irrefl _)
    rw [hend] at hpads
    have hstart : t = ⟨t.cpu,lay.place (K.entry i)⟩ := by rw [← hpc]
    rw [hstart]
    exact ⟨_,hcall.append hpads,rfl,haimed',hplain.rdi.trans hrdi,
      (hkept.trans (by decide) hd).trans (by decide) hplain.kept⟩
  obtain ⟨t,hgoes,hpc,ht⟩ := hrounds
  have hend : K.entry K.reps = .again := if_neg (lt_irrefl _)
  rw [hend] at hpc
  refine ⟨t.cpu,?_,ht⟩
  rwa [← hpc]

/-- One trip, up to the decrement. -/
theorem trip_goes (h : Steady K lay env target ready aimed) (k : ℕ) {c : Cpu}
    (hc : ready k c.regs) :
    ∃ d, Goes lay env ⟨c,lay.place (K.topFrom 0)⟩ (K.tripLabels (target k))
        ⟨d,lay.place .again⟩ ∧
      aimed k d.regs ∧ d.regs .rdi = c.regs .rdi ∧ Kept scratch 24 c d := by
  obtain ⟨hplain,haimed⟩ := h.top k c hc
  have htop : Goes lay env ⟨c,lay.place (K.topFrom 0)⟩ ((List.range K.top.length).map .top)
      ⟨K.top.foldl (Straight.exec lay env) c,lay.place (K.topFrom K.top.length)⟩ :=
    goes_straight c (fun _ hk => straight_getD hk) (fun _ _ => rfl) (fun _ hk => if_pos hk)
      (fun _ hk => hk)
  have hend : K.topFrom K.top.length = K.entry 0 := if_neg (lt_irrefl _)
  rw [hend] at htop
  obtain ⟨d,hreps,haimed',hrdi,hkept⟩ := reps_goes h k haimed
  exact ⟨d,htop.append hreps,haimed',hrdi.trans hplain.rdi,hplain.kept.trans (by decide) hkept⟩

/-- All trips of the loop. -/
theorem loop_goes (h : Steady K lay env target ready aimed) {c : Cpu} (hc : ready 0 c.regs) :
    ∃ d, Goes lay env ⟨c,lay.place (K.topFrom 0)⟩
        ((List.range (decTrips (c.regs .rdi))).flatMap
          (fun k => K.tripLabels (target k) ++ [.again]))
        ⟨d,lay.place (K.epilogueFrom 0)⟩ ∧
      ready (decTrips (c.regs .rdi)) d.regs ∧ Kept scratch 24 c d := by
  refine Goes.loop (I := fun k d => ready k d.regs ∧ Kept scratch 24 c d) rfl trivial
    (fun k _ u hu _ => ?_) ⟨hc,Kept.refl⟩
  obtain ⟨d,hgoes,haimed,hrdi,hkept⟩ := trip_goes h k hu.1
  exact ⟨d,hgoes,hrdi,h.next k _ _ haimed,(hu.2.trans (by decide) hkept).set (by decide) _⟩

/-- Everything but the last return. -/
theorem kernel_goes (h : Steady K lay env target ready aimed) {c : Cpu}
    (hc : ready 0 (K.prologue.foldl (Straight.exec lay env) c).regs)
    (hrdi : (K.prologue.foldl (Straight.exec lay env) c).regs .rdi = c.regs .rdi) :
    ∃ d, Goes lay env ⟨c,lay.place (K.prologueFrom 0)⟩
        ((List.range K.prologue.length).map .prologue ++
          (List.range (decTrips (c.regs .rdi))).flatMap
            (fun k => K.tripLabels (target k) ++ [.again]) ++
          (List.range K.epilogue.length).map .epilogue)
        ⟨K.epilogue.foldl (Straight.exec lay env) d,lay.place .leave⟩ ∧
      ready (decTrips (c.regs .rdi)) d.regs ∧
      Kept scratch 24 (K.prologue.foldl (Straight.exec lay env) c) d := by
  have hprologue : Goes lay env ⟨c,lay.place (K.prologueFrom 0)⟩
      ((List.range K.prologue.length).map .prologue)
      ⟨K.prologue.foldl (Straight.exec lay env) c,
        lay.place (K.prologueFrom K.prologue.length)⟩ :=
    goes_straight c (fun _ hk => straight_getD hk) (fun _ _ => rfl) (fun _ hk => if_pos hk)
      (fun _ hk => hk)
  obtain ⟨d,hloop,hready,hkept⟩ := loop_goes h hc
  have hepilogue : Goes lay env ⟨d,lay.place (K.epilogueFrom 0)⟩
      ((List.range K.epilogue.length).map .epilogue)
      ⟨K.epilogue.foldl (Straight.exec lay env) d,
        lay.place (K.epilogueFrom K.epilogue.length)⟩ :=
    goes_straight d (fun _ hk => straight_getD hk) (fun _ _ => rfl) (fun _ hk => if_pos hk)
      (fun _ hk => hk)
  have hend : K.prologueFrom K.prologue.length = K.topFrom 0 := if_neg (lt_irrefl _)
  have hend' : K.epilogueFrom K.epilogue.length = .leave := if_neg (lt_irrefl _)
  rw [hend] at hprologue
  rw [hend'] at hepilogue
  rw [hrdi] at hloop hready
  exact ⟨d,(hprologue.append hloop).append hepilogue,hready,hkept⟩

end Loop

def kernels : List Kernel :=
  [retpolineDenseCall .lfence,retpolineDenseCall .pause,retpolineSparseCallBase,
   retpolineSparseIndepCall .lfence,retpolineSparseIndepCall .pause,
   retpolineSparseDepCall .lfence,retpolineSparseDepCall .pause,indirectDenseCallPred,
   indirectDenseCallUnpred]

/-- The function that is called in a trip. -/
def Kernel.target (K : Kernel) (k : ℕ) : ℕ := 11*(k+1)%K.funcs

/-- The calls in a trip. -/
def Kernel.calls (K : Kernel) : ℕ := if K.site = .none then 0 else K.reps

def calledFunc : Label → Option ℕ
  | .func j => some j
  | _ => none

section Kernels
variable {reps : ℕ} {site : Site} {pads : List (Straight Label)} {env : Env}

/-- What may stand behind a call. -/
def Harmless (i : Straight Label) : Prop :=
  i = .op .nop ∨ (∃ w, i = .op (.op .imul w .rax (.imm 1))) ∨
    i = .op (.op .imul .w64 .r15 (.imm 1))

lemma harmless_exec (lay : Layout (fixedTarget reps site pads).program) {i : Straight Label}
    (hi : Harmless i) (c : Cpu) : Plain c (i.exec lay env c) ∧
      (i.exec lay env c).regs .r14 = c.regs .r14 ∧ (i.exec lay env c).regs .r15 = c.regs .r15 := by
  rcases hi with rfl | ⟨w,rfl⟩ | rfl
  · exact ⟨⟨rfl,rfl,fun _ _ => rfl⟩,rfl,rfl⟩
  · refine ⟨Plain.set (by decide) (by decide) _,?_,?_⟩
    all_goals exact Cpu.set_of_ne _ _ _ _ (by decide)
  · have hsame : Straight.exec lay env c (.op (.op .imul .w64 .r15 (.imm 1))) =
        c.set .r15 (c.regs .r15) := by
      change c.set .r15 (c.regs .r15*1#64) = _
      rw [BitVec.mul_one]
    rw [hsame]
    exact ⟨Plain.set (by decide) (by decide) _,Cpu.set_of_ne _ _ _ _ (by decide),Cpu.set_same ..⟩

lemma harmless_foldl (lay : Layout (fixedTarget reps site pads).program)
    {seg : List (Straight Label)} (hseg : ∀ i ∈ seg, Harmless i) (c : Cpu) :
    Plain c (seg.foldl (Straight.exec lay env) c) ∧
      (seg.foldl (Straight.exec lay env) c).regs .r14 = c.regs .r14 ∧
      (seg.foldl (Straight.exec lay env) c).regs .r15 = c.regs .r15 := by
  induction seg generalizing c with
  | nil => exact ⟨⟨rfl,rfl,fun _ _ => rfl⟩,rfl,rfl⟩
  | cons i seg ih =>
    obtain ⟨hi,hseg⟩ := List.forall_mem_cons.mp hseg
    obtain ⟨hplain,hr14,hr15⟩ := harmless_exec lay hi c
    obtain ⟨hplain',hr14',hr15'⟩ := ih hseg (i.exec lay env c)
    exact ⟨hplain.trans hplain',hr14'.trans hr14,hr15'.trans hr15⟩

/-- The registers of a kernel that always calls the same function. -/
def FixedAim (lay : Layout (fixedTarget reps site pads).program) (r14 : Word) (_ : ℕ)
    (regs : Reg → Word) : Prop := regs .r14 = r14 ∧ regs .r15 = lay.place (.func 0)

lemma fixedTarget_steady (hpads : ∀ i ∈ pads, Harmless i) (hne : pads ≠ [])
    (lay : Layout (fixedTarget reps site pads).program) (r14 : Word) :
    Steady (fixedTarget reps site pads) lay env (fixedTarget reps site pads).target
      (FixedAim lay r14) (FixedAim lay r14) where
  target_lt k := Nat.mod_lt _ Nat.one_pos
  pads_ne _ := hne
  aim k regs h := by
    have htarget : (fixedTarget reps site pads).target k = 0 := Nat.mod_one _
    rw [htarget]
    exact h.2
  top k c h := ⟨⟨rfl,rfl,fun _ _ => rfl⟩,h⟩
  pads k c h := by
    obtain ⟨hplain,hr14,hr15⟩ := harmless_foldl lay hpads c
    exact ⟨hplain,hr14.trans h.1,hr15.trans h.2⟩
  next k regs v h := by
    refine ⟨?_,?_⟩
    · rw [Function.update_of_ne (by decide)]
      exact h.1
    · rw [Function.update_of_ne (by decide)]
      exact h.2

/-- The return of a kernel that always calls the same function. -/
lemma fixedTarget_returned (lay : Layout (fixedTarget reps site pads).program) {k : ℕ} {c d : Cpu}
    (hkept : Kept scratch 24 ((fixedTarget reps site pads).prologue.foldl (Straight.exec lay env) c) d)
    (haim : FixedAim lay (c.regs .r14) k d.regs) (pc : Word) :
    Returned 40 ⟨c,pc⟩ (exec lay env .leave
      ⟨(fixedTarget reps site pads).epilogue.foldl (Straight.exec lay env) d,lay.place .leave⟩) := by
  let c₁ := (c.push (c.regs .r15)).set .r15 (lay.place (.func 0))
  let e := (d.set .rsp (d.regs .rsp+8)).set .r15 (d.read (d.regs .rsp) 8)
  change Kept scratch 24 c₁ d at hkept
  change Returned 40 ⟨c,pc⟩ ⟨e.set .rsp (e.regs .rsp+8),e.read (e.regs .rsp) 8⟩
  have hrsp₁ : c₁.regs .rsp = c.regs .rsp-8 := by
    rw [Cpu.set_of_ne _ _ _ _ (by decide),push_rsp]
  have hrsp : d.regs .rsp = c.regs .rsp-8 := (hkept.regs _ (by decide)).trans hrsp₁
  have hrspe : e.regs .rsp = c.regs .rsp := by
    rw [Cpu.set_of_ne _ _ _ _ (by decide),Cpu.set_same,hrsp]
    exact BitVec.sub_add_cancel _ _
  have hr15 : d.read (d.regs .rsp) 8 = c.regs .r15 := by
    have hread := hkept.read (by decide) (o := 0) (by decide)
    rw [BitVec.add_zero,hrsp₁] at hread
    rw [hrsp,hread]
    exact push_read c _
  refine ⟨?_,?_,fun r hr => ?_,fun x hx => ?_⟩
  · have hread := hkept.read (by decide) (o := 8) (by decide)
    have hsp : c₁.regs .rsp+BitVec.ofNat 64 8 = c.regs .rsp := by
      rw [hrsp₁]
      exact BitVec.sub_add_cancel _ _
    rw [hsp] at hread
    rw [hrspe]
    exact hread.trans (push_read_top c _)
  · rw [Cpu.set_same,hrspe]
  · have hne : ∀ r ∈ calleeSaved, r ≠ .rsp ∧ (r = .r15 ∨ r = .r14 ∨ r ∉ scratch ∧ r ≠ .r15) := by
      decide
    obtain ⟨hnrsp,hcases⟩ := hne r hr
    rw [Cpu.set_of_ne _ _ _ _ hnrsp]
    rcases hcases with rfl | rfl | ⟨hkeep,hnr15⟩
    · rw [Cpu.set_same,hr15]
    · rw [Cpu.set_of_ne _ _ _ _ (by decide),Cpu.set_of_ne _ _ _ _ (by decide)]
      exact haim.1
    · rw [Cpu.set_of_ne _ _ _ _ hnr15,Cpu.set_of_ne _ _ _ _ hnrsp,hkept.regs r hkeep,
        Cpu.set_of_ne _ _ _ _ hnr15,push_regs _ _ hnrsp]
  · change 40 ≤ (x-(c.regs .rsp-40)).toNat at hx
    have hmem : d.mem x = c₁.mem x := hkept.mem x (by rw [hrsp₁]; bv_omega)
    change d.mem x = c.mem x
    rw [hmem]
    exact push_mem c _ (by bv_omega)

end Kernels

/-- The empty functions are eight bytes apart. -/
def Spaced {K : Kernel} (lay : Layout K.program) : Prop :=
  ∀ j < K.funcs, lay.place (.func j) = lay.place (.func 0)+BitVec.ofNat 64 (8*j)

section Unpred
variable {env : Env} (lay : Layout indirectDenseCallUnpred.program)

/-- `r14` in front of a trip, and the registers behind `.top`. -/
def UnpredReady (k : ℕ) (regs : Reg → Word) : Prop := regs .r14 = BitVec.ofNat 64 (11*k%128)

def UnpredAim (k : ℕ) (regs : Reg → Word) : Prop :=
  UnpredReady (k+1) regs ∧ regs .r15 = lay.place (.func (indirectDenseCallUnpred.target k))

/-- The index of the next function. -/
lemma next_index (k : ℕ) : (BitVec.ofNat 64 (11*k%128)+11) &&& 127 =
    BitVec.ofNat 64 (11*(k+1)%128) := by
  apply BitVec.eq_of_toNat_eq
  rw [BitVec.toNat_and,BitVec.toNat_add,BitVec.toNat_ofNat,BitVec.toNat_ofNat]
  change (11*k%128%2^64+11)%2^64 &&& 2^7-1 = 11*(k+1)%128%2^64
  have hlt : ∀ n, n%128 < 128 := fun n => Nat.mod_lt n (by decide)
  have hk := hlt (11*k)
  have hk' := hlt (11*(k+1))
  rw [Nat.and_two_pow_sub_one_eq_mod,Nat.mod_eq_of_lt (by omega : 11*k%128 < 2^64),
    Nat.mod_eq_of_lt (by omega : 11*k%128+11 < 2^64),
    Nat.mod_eq_of_lt (by omega : 11*(k+1)%128 < 2^64)]
  exact Nat.mod_add_mod (11*k) 128 11

lemma unpred_steady (hspaced : Spaced lay) : Steady indirectDenseCallUnpred lay env
    indirectDenseCallUnpred.target UnpredReady (UnpredAim lay) where
  target_lt k := Nat.mod_lt _ (by decide)
  pads_ne h := absurd h (by decide)
  aim k regs h := h.2
  top k c h := by
    let index := (c.regs .r14+11) &&& 127
    have hindex : index = BitVec.ofNat 64 (11*(k+1)%128) := by
      rw [← next_index,← h]
    let c' := (c.set .r14 (c.regs .r14+11)).set .r14
      (((c.set .r14 (c.regs .r14+11)).regs .r14) &&& 127)
    have hr14 : c'.regs .r14 = index := by rw [Cpu.set_same,Cpu.set_same]
    change Plain c (c'.set .r15 (lay.place (.func 0)+c'.regs .r14*8)) ∧
      UnpredAim lay k (c'.set .r15 (lay.place (.func 0)+c'.regs .r14*8)).regs
    have hplain : Plain c c' := (Plain.set (by decide) (by decide) _).trans
      (Plain.set (by decide) (by decide) _)
    refine ⟨hplain.trans (Plain.set (by decide) (by decide) _),?_,?_⟩
    · rw [UnpredReady,Cpu.set_of_ne _ _ _ _ (by decide),hr14,hindex]
    · have htarget : indirectDenseCallUnpred.target k = 11*(k+1)%128 := rfl
      rw [Cpu.set_same,hr14,hindex,htarget,hspaced (11*(k+1)%128) (Nat.mod_lt _ (by decide)),
        Nat.mul_comm 8,BitVec.ofNat_mul]
      rfl
  pads k c h := ⟨⟨rfl,rfl,fun _ _ => rfl⟩,h⟩
  next k regs v h := by
    rw [UnpredReady,Function.update_of_ne (by decide)]
    exact h.1

lemma unpred_returned {c d : Cpu}
    (hkept : Kept scratch 24 (indirectDenseCallUnpred.prologue.foldl (Straight.exec lay env) c) d)
    (pc : Word) : Returned 40 ⟨c,pc⟩ (exec lay env .leave
      ⟨indirectDenseCallUnpred.epilogue.foldl (Straight.exec lay env) d,lay.place .leave⟩) := by
  let c₁ := c.push (c.regs .r14)
  let c₂ := c₁.push (c₁.regs .r15)
  let c₃ := c₂.set .r14 (c₂.regs .r14 ^^^ c₂.regs .r14)
  let e := (d.set .rsp (d.regs .rsp+8)).set .r15 (d.read (d.regs .rsp) 8)
  let e' := (e.set .rsp (e.regs .rsp+8)).set .r14 (e.read (e.regs .rsp) 8)
  change Kept scratch 24 c₃ d at hkept
  change Returned 40 ⟨c,pc⟩ ⟨e'.set .rsp (e'.regs .rsp+8),e'.read (e'.regs .rsp) 8⟩
  have hrsp₁ : c₁.regs .rsp = c.regs .rsp-8 := push_rsp c _
  have hrsp₂ : c₂.regs .rsp = c₁.regs .rsp-8 := push_rsp c₁ _
  have hrsp₃ : c₃.regs .rsp = c₂.regs .rsp := Cpu.set_of_ne _ _ _ _ (by decide)
  have hrsp : d.regs .rsp = c₁.regs .rsp-8 := by
    rw [hkept.regs _ (by decide),hrsp₃,hrsp₂]
  have hrspe : e.regs .rsp = c₁.regs .rsp := by
    rw [Cpu.set_of_ne _ _ _ _ (by decide),Cpu.set_same,hrsp]
    exact BitVec.sub_add_cancel _ _
  have hrspe' : e'.regs .rsp = c.regs .rsp := by
    rw [Cpu.set_of_ne _ _ _ _ (by decide),Cpu.set_same,hrspe,hrsp₁]
    exact BitVec.sub_add_cancel _ _
  have hread : ∀ o ≤ 16, d.read (c₁.regs .rsp-8+BitVec.ofNat 64 o) 8 =
      c₂.read (c₁.regs .rsp-8+BitVec.ofNat 64 o) 8 := fun o ho => by
    have h := hkept.read (by decide) (lt_of_le_of_lt ho (by decide : 16 < 2^32))
    rwa [hrsp₃,hrsp₂] at h
  have hr15 : d.read (d.regs .rsp) 8 = c.regs .r15 := by
    have h := hread 0 (by decide)
    rw [BitVec.add_zero] at h
    rw [hrsp,h,push_read,push_regs _ _ (by decide)]
  have hr14 : e.read (e.regs .rsp) 8 = c.regs .r14 := by
    have h := hread 8 (by decide)
    have hsp : c₁.regs .rsp-8+BitVec.ofNat 64 8 = c₁.regs .rsp := BitVec.sub_add_cancel _ _
    rw [hsp] at h
    rw [hrspe]
    refine (h.trans (push_read_top c₁ _)).trans ?_
    rw [hrsp₁]
    exact push_read c _
  refine ⟨?_,?_,fun r hr => ?_,fun x hx => ?_⟩
  · have h := hread 16 (by decide)
    have hsp : c₁.regs .rsp-8+BitVec.ofNat 64 16 = c.regs .rsp := by
      rw [hrsp₁]
      bv_omega
    have hsp' : c.regs .rsp = c₁.regs .rsp+BitVec.ofNat 64 8 := by
      rw [hrsp₁]
      bv_omega
    rw [hsp] at h
    rw [hrspe']
    refine h.trans (Eq.trans ?_ (push_read_top c (c.regs .r14)))
    rw [hsp']
    exact push_read_above c₁ _ (by decide)
  · rw [Cpu.set_same,hrspe']
  · have hne : ∀ r ∈ calleeSaved, r ≠ .rsp ∧
        (r = .r14 ∨ r = .r15 ∨ r ∉ scratch ∧ r ≠ .r14 ∧ r ≠ .r15) := by decide
    obtain ⟨hnrsp,hcases⟩ := hne r hr
    rw [Cpu.set_of_ne _ _ _ _ hnrsp]
    rcases hcases with rfl | rfl | ⟨hkeep,hnr14,hnr15⟩
    · rw [Cpu.set_same,hr14]
    · rw [Cpu.set_of_ne _ _ _ _ (by decide),Cpu.set_of_ne _ _ _ _ (by decide),Cpu.set_same,hr15]
    · rw [Cpu.set_of_ne _ _ _ _ hnr14,Cpu.set_of_ne _ _ _ _ hnrsp,Cpu.set_of_ne _ _ _ _ hnr15,
        Cpu.set_of_ne _ _ _ _ hnrsp,hkept.regs r hkeep,Cpu.set_of_ne _ _ _ _ hnr14,
        push_regs _ _ hnrsp,push_regs _ _ hnrsp]
  · change 40 ≤ (x-(c.regs .rsp-40)).toNat at hx
    have hmem : d.mem x = c₃.mem x := hkept.mem x (by rw [hrsp₃,hrsp₂,hrsp₁]; bv_omega)
    change d.mem x = c.mem x
    rw [hmem]
    refine (push_mem c₁ _ ?_).trans (push_mem c _ (by bv_omega))
    rw [hrsp₁]
    bv_omega

end Unpred

/-- The labels of a run. -/
def Kernel.labels (K : Kernel) (trips : ℕ) : List Label :=
  (List.range K.prologue.length).map .prologue ++
    (List.range trips).flatMap (fun k => K.tripLabels (K.target k) ++ [.again]) ++
    (List.range K.epilogue.length).map .epilogue ++ [.leave]

lemma filterMap_none {α : Type} (l : List α) {mk : α → Label}
    (h : ∀ k, calledFunc (mk k) = none) : (l.map mk).filterMap calledFunc = [] := by
  rw [List.filterMap_map,List.filterMap_eq_nil_iff]
  exact fun k _ => h k

/-- The functions that are called in a trip. -/
lemma tripLabels_calls (K : Kernel) (j : ℕ) :
    (K.tripLabels j).filterMap calledFunc = List.replicate K.calls j := by
  have hcall : ∀ i, (K.callLabels i j ++ (List.range K.pads.length).map (Label.pad i)).filterMap
      calledFunc = if K.site = .none then [] else [j] := fun i => by
    rw [List.filterMap_append,filterMap_none _ (fun _ => rfl),List.append_nil,
      Kernel.callLabels]
    cases K.site <;> rfl
  rw [Kernel.tripLabels,List.filterMap_append,
    filterMap_none _ (fun _ => rfl),List.nil_append,List.filterMap_flatMap]
  simp only [hcall]
  rw [Kernel.calls]
  split_ifs
  · exact List.flatMap_eq_nil_iff.mpr (fun _ _ => rfl)
  · rw [← List.map_eq_flatMap,List.map_const',List.length_range]

lemma labels_calls (K : Kernel) (trips : ℕ) : (K.labels trips).filterMap calledFunc =
    (List.range trips).flatMap (fun k => List.replicate K.calls (K.target k)) := by
  have htrip : ∀ k, (K.tripLabels (K.target k) ++ [Label.again]).filterMap calledFunc =
      List.replicate K.calls (K.target k) := fun k => by
    rw [List.filterMap_append,tripLabels_calls]
    exact List.append_nil _
  rw [Kernel.labels,List.filterMap_append,List.filterMap_append,List.filterMap_append,
    filterMap_none _ (fun _ => rfl),filterMap_none _ (fun _ => rfl),List.nil_append,
    List.append_nil,List.filterMap_flatMap]
  simp only [htrip]
  exact List.append_nil _

/-- The decrements of the counter. -/
lemma labels_trips (K : Kernel) (trips : ℕ) : (K.labels trips).count .again = trips := by
  have hcall : ∀ i j, .again ∉ K.callLabels i j := fun i j => by
    rw [Kernel.callLabels]
    cases K.site <;> simp [retpoCallLabels]
  have htrip : ∀ j, (K.tripLabels j).count .again = 0 := fun j => by
    refine List.count_eq_zero.mpr ?_
    simp only [Kernel.tripLabels,List.mem_append,List.mem_map,List.mem_flatMap,hcall,reduceCtorEq,
      and_false,exists_false,or_false,not_false_eq_true]
  have hprologue : .again ∉ (List.range K.prologue.length).map Label.prologue := by simp
  have hepilogue : .again ∉ (List.range K.epilogue.length).map Label.epilogue := by simp
  rw [Kernel.labels,List.count_append,List.count_append,List.count_append,
    List.count_eq_zero.mpr hprologue,List.count_eq_zero.mpr hepilogue,List.count_flatMap]
  simp [Function.comp_def,htrip]

/-- The code behind the call of the thunk is only speculated. -/
lemma speculated_not_mem (K : Kernel) (trips : ℕ) {p : ThunkPart} (hp : p = .loop ∨ p = .jmpLoop) :
    .thunk p ∉ K.labels trips := by
  have hcall : ∀ i j, .thunk p ∉ K.callLabels i j := fun i j => by
    rw [Kernel.callLabels]
    rcases hp with rfl | rfl <;> cases K.site <;> simp [retpoCallLabels]
  simp only [Kernel.labels,Kernel.tripLabels,List.mem_append,List.mem_map,List.mem_flatMap,
    List.mem_singleton,hcall,reduceCtorEq,and_false,exists_false,or_false,
    not_false_eq_true]

/-- A run of a kernel with some number of trips. -/
structure KernelRun (K : Kernel) (lay : Layout K.program) (env : Env) (s : State) (trips : ℕ) :
    Prop where
  run : ∀ fuel, (K.labels trips).length < fuel →
    run lay env fuel s = some ((K.labels trips).map some)
  decrements : (K.labels trips).count .again = trips
  funcs : (K.labels trips).filterMap calledFunc =
    (List.range trips).flatMap (fun k => List.replicate K.calls (K.target k))
  speculated : .thunk .loop ∉ K.labels trips ∧ .thunk .jmpLoop ∉ K.labels trips
  returned : ∃ t, Goes lay env s (K.labels trips) t ∧ Returned 40 s t

/-- A kernel that is steady and restores its registers. -/
lemma run_of_steady {K : Kernel} {lay : Layout K.program} {env : Env}
    {ready aimed : ℕ → (Reg → Word) → Prop} (h : Steady K lay env K.target ready aimed) {c : Cpu}
    (hprologue : K.prologue ≠ [])
    (hc : ready 0 (K.prologue.foldl (Straight.exec lay env) c).regs)
    (hrdi : (K.prologue.foldl (Straight.exec lay env) c).regs .rdi = c.regs .rdi)
    (hreturned : ∀ k d, Kept scratch 24 (K.prologue.foldl (Straight.exec lay env) c) d → ready k d.regs →
      Returned 40 ⟨c,lay.place (.prologue 0)⟩ (exec lay env .leave
        ⟨K.epilogue.foldl (Straight.exec lay env) d,lay.place .leave⟩))
    (hret : lay.find (c.read (c.regs .rsp) 8) = none) :
    KernelRun K lay env ⟨c,lay.place (.prologue 0)⟩ (decTrips (c.regs .rdi)) := by
  obtain ⟨d,hgoes,hready,hkept⟩ := kernel_goes h hc hrdi
  have hstart : K.prologueFrom 0 = .prologue 0 := if_pos (List.length_pos_iff.mpr hprologue)
  rw [hstart] at hgoes
  have hback := hreturned _ d hkept hready
  have hleave : Goes lay env ⟨K.epilogue.foldl (Straight.exec lay env) d,lay.place .leave⟩ [.leave]
      _ := goes_one rfl trivial
  have hrun := hgoes.append hleave
  exact ⟨fun fuel hfuel => hback.run_eq_some hrun hret hfuel,labels_trips K _,labels_calls K _,
    ⟨speculated_not_mem K _ (Or.inl rfl),speculated_not_mem K _ (Or.inr rfl)⟩,_,hrun,hback⟩

lemma fixedTarget_run {reps : ℕ} {site : Site} {pads : List (Straight Label)}
    (hpads : ∀ i ∈ pads, Harmless i) (hne : pads ≠ [])
    (lay : Layout (fixedTarget reps site pads).program) (env : Env) (c : Cpu)
    (hret : lay.find (c.read (c.regs .rsp) 8) = none) :
    KernelRun (fixedTarget reps site pads) lay env ⟨c,lay.place (.prologue 0)⟩
      (decTrips (c.regs .rdi)) := by
  have hbefore : ∀ r, r ≠ .rsp → r ≠ .r15 → ((fixedTarget reps site pads).prologue.foldl
      (Straight.exec lay env) c).regs r = c.regs r := fun r hrsp hr15 => by
    change ((c.push _).set .r15 _).regs r = _
    rw [Cpu.set_of_ne _ _ _ _ hr15,push_regs _ _ hrsp]
  exact run_of_steady (fixedTarget_steady hpads hne lay (c.regs .r14)) (List.cons_ne_nil _ _)
    ⟨hbefore _ (by decide) (by decide),Cpu.set_same ..⟩ (hbefore _ (by decide) (by decide))
    (fun k d hkept hready => fixedTarget_returned lay hkept hready _) hret

lemma unpred_run (lay : Layout indirectDenseCallUnpred.program) (hspaced : Spaced lay) (env : Env)
    (c : Cpu) (hret : lay.find (c.read (c.regs .rsp) 8) = none) :
    KernelRun indirectDenseCallUnpred lay env ⟨c,lay.place (.prologue 0)⟩
      (decTrips (c.regs .rdi)) := by
  let c₁ := c.push (c.regs .r14)
  let c₂ := c₁.push (c₁.regs .r15)
  refine run_of_steady (unpred_steady lay hspaced) (List.cons_ne_nil _ _) ?_ ?_
    (fun k d hkept _ => unpred_returned lay hkept _) hret
  · change UnpredReady 0 (c₂.set .r14 (c₂.regs .r14 ^^^ c₂.regs .r14)).regs
    rw [UnpredReady,Cpu.set_same,BitVec.xor_self]
  · change (c₂.set .r14 _).regs .rdi = _
    rw [Cpu.set_of_ne _ _ _ _ (by decide),push_regs _ _ (by decide),push_regs _ _ (by decide)]

/-- The kernels run as many trips as their iterations and return to their caller with its registers
and its stack. In each trip all repetitions call the function of the trip, in the retpolines as in the
indirect kernels, and the code that is speculated is never reached. The kernel without a call site has
only what stands behind the calls. -/
theorem kernels_run (K : Kernel) (hK : K ∈ kernels) (lay : Layout K.program) (hspaced : Spaced lay)
    (env : Env) (c : Cpu) (hret : lay.find (c.read (c.regs .rsp) 8) = none) :
    KernelRun K lay env ⟨c,lay.place (.prologue 0)⟩ (decTrips (c.regs .rdi)) ∧
      ∀ first, ∀ j < K.funcs, ∃! k, (first ≤ k ∧ k < first+K.funcs) ∧ K.target k = j := by
  have hnop : ∀ i ∈ [denseNopPadding], Harmless i := fun i hi =>
    Or.inl (List.mem_singleton.mp hi)
  have hrax : ∀ w, ∀ i ∈ imuls w .rax, Harmless i := fun w i hi =>
    Or.inr (Or.inl ⟨w,List.eq_of_mem_replicate hi⟩)
  have hr15 : ∀ i ∈ imuls .w64 .r15, Harmless i := fun i hi =>
    Or.inr (Or.inr (List.eq_of_mem_replicate hi))
  have hcoprime : ∀ K ∈ kernels, Nat.Coprime 11 K.funcs := by decide
  refine ⟨?_,fun first j hj => ?_⟩
  · simp only [kernels,List.mem_cons,List.not_mem_nil,or_false] at hK
    rcases hK with rfl | rfl | rfl | rfl | rfl | rfl | rfl | rfl | rfl
    · exact fixedTarget_run hnop (by decide) lay env c hret
    · exact fixedTarget_run hnop (by decide) lay env c hret
    · exact fixedTarget_run (hrax _) (by decide) lay env c hret
    · exact fixedTarget_run (hrax _) (by decide) lay env c hret
    · exact fixedTarget_run (hrax _) (by decide) lay env c hret
    · exact fixedTarget_run hr15 (by decide) lay env c hret
    · exact fixedTarget_run hr15 (by decide) lay env c hret
    · exact fixedTarget_run hnop (by decide) lay env c hret
    · exact unpred_run lay hspaced env c hret
  · obtain ⟨k,⟨hk,hkj⟩,hunique⟩ := existsUnique_stride (hcoprime K hK) (first+1) hj
    obtain ⟨k,rfl⟩ : ∃ m, k = m+1 := ⟨k-1,by omega⟩
    refine ⟨k,⟨by omega,hkj⟩,fun k' hk' => ?_⟩
    have heq := hunique (k'+1) ⟨by omega,hk'.2⟩
    omega

def siteParts : List SitePart := [.jmpCall,.jmpthunk,.jmpRetpoline,.call,.callReg]
def thunkParts : List ThunkPart := [.callTarget,.loop,.jmpLoop,.target,.ret]

/-- A layout of the dense retpolines. -/
def denseLayout : Layout (retpolineDenseCall .lfence).program :=
  Layout.ofList _ 1 ([[.prologue 0,.prologue 1],
    (List.range 32).flatMap (fun i => siteParts.map (.site i) ++ [.pad i 0]),
    [.again,.epilogue 0,.leave],thunkParts.map .thunk,[.func 0]].flatten) (fun l hl => by
      cases l with
      | prologue k =>
        have hk : k = 0 ∨ k = 1 := Nat.le_one_iff_eq_zero_or_eq_one.mp (Nat.lt_succ_iff.mp hl)
        rcases hk with rfl | rfl <;> simp
      | top k => exact absurd hl (Nat.not_lt_zero k)
      | site i p =>
        have hi : i < 32 := by cases p <;> exact hl.1
        have hp : p ∈ siteParts := by cases p <;> decide
        simp [hi,hp]
      | pad i k =>
        obtain ⟨hi,hk⟩ : i < 32 ∧ k < 1 := hl
        simp [hi,Nat.lt_one_iff.mp hk]
      | again => simp
      | epilogue k =>
        obtain rfl : k = 0 := Nat.lt_one_iff.mp hl
        simp
      | leave => simp
      | thunk p =>
        have hp : p ∈ thunkParts := by cases p <;> decide
        simp [hp]
      | func j =>
        obtain rfl : j = 0 := Nat.lt_one_iff.mp hl
        simp) Nat.one_pos (by simp [siteParts,thunkParts])

theorem kernels_run_dense :
    KernelRun (retpolineDenseCall .lfence) denseLayout zeroEnv
        ⟨caller,denseLayout.place (.prologue 0)⟩ 100 ∧
      ∀ first, ∀ j < 1, ∃! k, (first ≤ k ∧ k < first+1) ∧
        (retpolineDenseCall .lfence).target k = j := by
  refine kernels_run (retpolineDenseCall .lfence) (List.mem_cons_self ..) denseLayout
    (fun j hj => ?_) zeroEnv caller (by decide)
  obtain rfl : j = 0 := Nat.lt_one_iff.mp hj
  exact (BitVec.add_zero _).symm

end UarchBench.Retpoline
