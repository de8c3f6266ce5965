import UarchBench.Base.Counted
import UarchBench.Base.WrapMemory

/-! The machine of the kernels that read the performance counters themselves and of those that call:
registers, the lanes of the vector registers, memory, and the instructions that they use. -/
namespace UarchBench.Machine
open Base

abbrev Word := BitVec 64

inductive Reg
  | rax | rcx | rdx | rbx | rsp | rbp | rsi | rdi | r8 | r9 | r10 | r11 | r12 | r13 | r14 | r15
  deriving DecidableEq, Repr

inductive Xmm
  | xmm0 | xmm1 | xmm2 | xmm3 | xmm4
  deriving DecidableEq, Repr

inductive Lane
  | low | high
  deriving DecidableEq, Repr

inductive Width
  | w32 | w64
  deriving DecidableEq, Repr

/-- A result of this width, as it is kept in a register. -/
def Width.trunc : Width → Word → Word
  | .w32, x => (x.setWidth 32).setWidth 64
  | .w64, x => x

def Width.bytes : Width → ℕ
  | .w32 => 4
  | .w64 => 8

/-- `[base + index*scale + disp]`. -/
structure Addr where
  base : Reg
  disp : Word := 0
  index : Option (Reg × Word) := none
  deriving DecidableEq, Repr

inductive Src
  | reg (r : Reg)
  | imm (v : Word)
  | mem (a : Addr)
  deriving DecidableEq, Repr

inductive Op
  | mov | add | sub | or | and | xor | imul
  deriving DecidableEq, Repr

inductive Instr
  | op (o : Op) (w : Width) (r : Reg) (src : Src)
  | shl (r : Reg) (n : ℕ)
  | lea (r : Reg) (a : Addr)
  | store (bytes : ℕ) (a : Addr) (src : Src)
  /-- An operation whose destination is in memory. -/
  | opMem (o : Op) (w : Width) (a : Addr) (src : Src)
  | push (r : Reg)
  | pop (r : Reg)
  | movqTo (x : Xmm) (r : Reg)
  | movqFrom (r : Reg) (x : Xmm)
  | pinsrq (x : Xmm) (r : Reg) (l : Lane)
  | pextrq (a : Addr) (x : Xmm) (l : Lane)
  | psubq (x y : Xmm)
  | rdpmc
  | cpuid
  | mfence
  | lfence
  | pause
  | nop
  /-- A jump to the instruction behind it. -/
  | jmpNext
  deriving DecidableEq, Repr

@[ext]
structure Cpu where
  regs : Reg → Word
  xmm : Xmm → Lane → Word
  mem : WrapMemory 64
  /-- The counter reads so far. -/
  reads : ℕ

/-- The processor's answers: the value of a counter at a read, and the identification. -/
structure Env where
  counter : ℕ → BitVec 32 → Word
  cpuid : BitVec 32 → BitVec 32 → Reg → BitVec 32

namespace Cpu

def set (s : Cpu) (r : Reg) (v : Word) : Cpu := { s with regs := Function.update s.regs r v }

def setXmm (s : Cpu) (x : Xmm) (v : Lane → Word) : Cpu :=
  { s with xmm := Function.update s.xmm x v }

def write (s : Cpu) (a : Word) (bytes : ℕ) (v : Word) : Cpu :=
  { s with mem := s.mem.store a bytes v.toNat }

/-- A value on top of the stack. -/
def push (s : Cpu) (v : Word) : Cpu :=
  (s.set .rsp (s.regs .rsp-8)).write (s.regs .rsp-8) 8 v

def tick (s : Cpu) : Cpu := { s with reads := s.reads+1 }

def read (s : Cpu) (a : Word) (bytes : ℕ) : Word := BitVec.ofNat 64 (s.mem.load a bytes)

section Fields
variable (s : Cpu) (r r' : Reg) (v : Word) (x y : Xmm) (f : Lane → Word) (a : Word) (bytes : ℕ)

@[simp] lemma set_same : (s.set r v).regs r = v := Function.update_self ..
@[simp] lemma set_of_ne (h : r' ≠ r) : (s.set r v).regs r' = s.regs r' := Function.update_of_ne h ..
@[simp] lemma set_xmm : (s.set r v).xmm = s.xmm := rfl
@[simp] lemma set_mem : (s.set r v).mem = s.mem := rfl
@[simp] lemma set_reads : (s.set r v).reads = s.reads := rfl
@[simp] lemma setXmm_regs : (s.setXmm x f).regs = s.regs := rfl
@[simp] lemma setXmm_same : (s.setXmm x f).xmm x = f := Function.update_self ..
@[simp] lemma setXmm_of_ne (h : y ≠ x) : (s.setXmm x f).xmm y = s.xmm y :=
  Function.update_of_ne h ..
@[simp] lemma setXmm_mem : (s.setXmm x f).mem = s.mem := rfl
@[simp] lemma setXmm_reads : (s.setXmm x f).reads = s.reads := rfl
@[simp] lemma tick_regs : s.tick.regs = s.regs := rfl
@[simp] lemma tick_xmm : s.tick.xmm = s.xmm := rfl
@[simp] lemma tick_mem : s.tick.mem = s.mem := rfl
@[simp] lemma tick_reads : s.tick.reads = s.reads+1 := rfl
@[simp] lemma write_regs : (s.write a bytes v).regs = s.regs := rfl
@[simp] lemma write_xmm : (s.write a bytes v).xmm = s.xmm := rfl
@[simp] lemma write_mem : (s.write a bytes v).mem = s.mem.store a bytes v.toNat := rfl
@[simp] lemma write_reads : (s.write a bytes v).reads = s.reads := rfl

end Fields
end Cpu

def Addr.eval (a : Addr) (s : Cpu) : Word :=
  match a.index with
  | none => s.regs a.base+a.disp
  | some (r,scale) => s.regs a.base+s.regs r*scale+a.disp

def Src.value (src : Src) (w : Width) (s : Cpu) : Word :=
  match src with
  | .reg r => s.regs r
  | .imm v => v
  | .mem a => s.read (a.eval s) w.bytes

def Op.apply : Op → Word → Word → Word
  | .mov, _, y => y
  | .add, x, y => x+y
  | .sub, x, y => x-y
  | .or, x, y => x ||| y
  | .and, x, y => x &&& y
  | .xor, x, y => x ^^^ y
  | .imul, x, y => x*y

/-- The low and the high half of a counter. -/
def Cpu.rdpmc (env : Env) (s : Cpu) : Cpu :=
  let v := env.counter s.reads ((s.regs .rcx).setWidth 32)
  (s.tick.set .rax (Width.w32.trunc v)).set .rdx (v >>> 32)

def Cpu.cpuid (env : Env) (s : Cpu) : Cpu :=
  let answer := fun r =>
    (env.cpuid ((s.regs .rax).setWidth 32) ((s.regs .rcx).setWidth 32) r).setWidth 64
  [Reg.rax,.rbx,.rcx,.rdx].foldl (fun t r => t.set r (answer r)) s

def exec (env : Env) (s : Cpu) : Instr → Cpu
  | .op o w r src => s.set r (w.trunc (o.apply (s.regs r) (src.value w s)))
  | .shl r n => s.set r (s.regs r <<< n)
  | .lea r a => s.set r (a.eval s)
  | .store bytes a src => s.write (a.eval s) bytes (src.value .w64 s)
  | .opMem o w a src =>
    s.write (a.eval s) w.bytes (o.apply (s.read (a.eval s) w.bytes) (src.value w s))
  | .push r => s.push (s.regs r)
  | .pop r => (s.set .rsp (s.regs .rsp+8)).set r (s.read (s.regs .rsp) 8)
  | .movqTo x r => s.setXmm x (fun l => if l = .low then s.regs r else 0)
  | .movqFrom r x => s.set r (s.xmm x .low)
  | .pinsrq x r l => s.setXmm x (Function.update (s.xmm x) l (s.regs r))
  | .pextrq a x l => s.write (a.eval s) 8 (s.xmm x l)
  | .psubq x y => s.setXmm x (fun l => s.xmm x l-s.xmm y l)
  | .rdpmc => s.rdpmc env
  | .cpuid => s.cpuid env
  | .mfence | .lfence | .pause | .nop | .jmpNext => s

/-- The register of a loop, with the width of its decrement. -/
structure Counter where
  reg : Reg
  width : Width := .w64
  deriving DecidableEq, Repr

/-- `dec` and `jnz`. -/
def semantics (env : Env) : Semantics Instr Counter Cpu where
  exec := exec env
  dec s c := s.set c.reg (c.width.trunc (s.regs c.reg-1))
  nonzero s c := decide (c.width.trunc (s.regs c.reg) ≠ 0)

lemma trunc_ofNat (w : Width) {n : ℕ} (hn : n < 2^32) :
    w.trunc (BitVec.ofNat 64 n) = BitVec.ofNat 64 n := by
  cases w with
  | w64 => rfl
  | w32 =>
    apply BitVec.eq_of_toNat_eq
    rw [Width.trunc,BitVec.toNat_setWidth,BitVec.toNat_setWidth,BitVec.toNat_ofNat]
    omega

/-- The counter is set to the number of trips in front of the loop, and the body keeps it. -/
theorem counted_loop {env : Env} {P : Cpu → Prop} {body : Code Instr Counter} {c : Counter} {n : ℕ}
    (hn : 0 < n) (hlt : n < 2^32)
    (hset : ∀ s v, P s → P (s.set c.reg v))
    (hbody : ∀ v, (semantics env).Triple (fun s => P s ∧ s.regs c.reg = v) body
      (fun s => P s ∧ s.regs c.reg = v)) :
    (semantics env).Triple (fun s => P s ∧ s.regs c.reg = BitVec.ofNat 64 n) (.loop body c) P := by
  have hloop : (semantics env).Triple (fun s => P s ∧ s.regs c.reg = BitVec.ofNat 64 (n-0))
      (.loop body c) (fun s => P s ∧ s.regs c.reg = BitVec.ofNat 64 (n-n)) := by
    refine Semantics.Triple.loop (I := fun k s => P s ∧ s.regs c.reg = BitVec.ofNat 64 (n-k)) hn
      (fun k hk => (hbody (BitVec.ofNat 64 (n-k))).conseq (fun _ hs => hs) (fun t ht => ?_))
    obtain ⟨left,rfl⟩ : ∃ left, n = k+1+left := ⟨n-(k+1),by omega⟩
    have hleft : k+1+left-k = left+1 := by omega
    have hdec : BitVec.ofNat 64 (left+1)-1 = BitVec.ofNat 64 left := by
      rw [BitVec.ofNat_add]
      exact BitVec.add_sub_cancel _ _
    have hreg : c.width.trunc (t.regs c.reg-1) = BitVec.ofNat 64 left := by
      rw [ht.2,hleft,hdec,trunc_ofNat _ (by omega)]
    have ht' : (semantics env).dec t c = t.set c.reg (BitVec.ofNat 64 left) := by
      rw [← hreg]
      rfl
    rw [ht',Nat.add_sub_cancel_left]
    refine ⟨⟨hset t _ ht.1,Cpu.set_same ..⟩,?_⟩
    · change decide (c.width.trunc ((t.set c.reg _).regs c.reg) ≠ 0) = _
      rw [Cpu.set_same,trunc_ofNat _ (by omega),decide_eq_decide,ne_eq,← BitVec.toNat_inj,
        BitVec.toNat_ofNat]
      change ¬left%2^64 = 0 ↔ _
      omega
  exact hloop.conseq (fun _ hs => hs) (fun _ ht => ht.1)

end UarchBench.Machine
