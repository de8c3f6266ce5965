import UarchBench.Base.ByteMemory
import UarchBench.Base.Countdown
import UarchBench.Base.Stride
import UarchBench.Kernels.Bandwidth

/-! The kernels that miss in parallel: one access in each trip walks a large buffer with a stride,
and payload instructions follow it. The walk meets every line once before it comes back to one. -/
namespace UarchBench.ParallelMiss
open Base Bandwidth

/-- 199 lines. -/
def stride : ℕ := 12736

def size : ℕ := 2^25

def mask : ℕ := size-1

/-- The memory operands: `[rsi + rdx]` and `[rsp]`. -/
inductive Operand
  | buffer
  | stack
  deriving DecidableEq, Repr

/-- The instructions of the kernels; the lock prefix changes no value. -/
inductive Instr
  | movLoad
  | movStore
  | movEax (value : Word)
  | add (lock : Bool) (operand : Operand)
  | xadd (lock : Bool) (operand : Operand)
  | nop
  | lfence
  | mfence
  | sfence
  | syscall
  deriving DecidableEq, Repr

structure Regs where
  rax : Word
  rcx : Word
  rdx : Word
  rdi : Word
  rsi : Word
  rsp : Word

structure State where
  regs : Regs
  flags : Flags
  mem : Memory
  /-- The accesses through the operands. -/
  walk : List Access
  stack : List Access

/-- The operating system, whose calls keep all registers but `rax`, `rcx` and `r11`. -/
structure Os where
  call : Regs → Memory → Regs × Memory
  keeps : ∀ r m, (call r m).1.rdx = r.rdx ∧ (call r m).1.rdi = r.rdi ∧
    (call r m).1.rsi = r.rsi ∧ (call r m).1.rsp = r.rsp

def Operand.address (r : Regs) : Operand → Word
  | buffer => r.rsi+r.rdx
  | stack => r.rsp

def State.touch (s : State) (bytes : ℕ) (writes : Bool) (o : Operand) : State :=
  match o with
  | .buffer => {s with walk := s.walk ++ [⟨o.address s.regs,bytes,writes⟩]}
  | .stack => {s with stack := s.stack ++ [⟨o.address s.regs,bytes,writes⟩]}

def exec (os : Os) (s : State) : Instr → State
  | .movLoad =>
    let a := Operand.buffer.address s.regs
    {s.touch 4 false .buffer with
      regs := {s.regs with rcx := BitVec.ofNat 64 (s.mem.load a.toNat 4)}}
  | .movStore =>
    let a := Operand.buffer.address s.regs
    {s.touch 4 true .buffer with mem := s.mem.store a.toNat 4 s.regs.rcx.toNat}
  | .movEax value => {s with regs := {s.regs with rax := value}}
  | .add _ o =>
    let a := o.address s.regs
    {s.touch 8 true o with
      mem := s.mem.store a.toNat 8 (s.mem.load a.toNat 8+s.regs.rax.toNat)}
  | .xadd _ o =>
    let a := o.address s.regs
    {s.touch 8 true o with
      mem := s.mem.store a.toNat 8 (s.mem.load a.toNat 8+s.regs.rax.toNat)
      regs := {s.regs with rax := BitVec.ofNat 64 (s.mem.load a.toNat 8)}}
  | .nop | .lfence | .mfence | .sfence => s
  | .syscall => {s with regs := (os.call s.regs s.mem).1, mem := (os.call s.regs s.mem).2}

/-- An instance of `parallel_miss_macro_full`, with its three parameters. -/
structure Kernel where
  benchName : String
  access : List Instr
  payload : List Instr
  more : List Instr

def Kernel.body (K : Kernel) : List Instr := K.access ++ K.payload ++ K.more

/-- `define_parallel_load_miss`. -/
def loadMiss (benchName : String) (payload : List Instr) (more : List Instr := []) : Kernel :=
  ⟨benchName,[.movLoad],payload,more⟩

/-- `define_parallel_store_miss`. -/
def storeMiss (benchName : String) (payload : List Instr) (more : List Instr := []) : Kernel :=
  ⟨benchName,[.movStore],payload,more⟩

/-- `define_parallel_both_miss`. -/
def bothMiss (benchName : String) (payload : List Instr) (more : List Instr := []) :
    List Kernel :=
  [loadMiss benchName payload more,storeMiss (benchName ++ "_store") payload more]

/-- `syscall_123456`. -/
def syscall123456 : List Instr := [.movEax 123456,.syscall]

/-- All instances: with interleaved payloads, solo, and with system calls. -/
def kernels : List Kernel :=
  bothMiss "parallel_misses" [.nop] ++
  bothMiss "add_misses" [.add false .stack] ++
  bothMiss "lockadd_misses" [.add true .stack] ++
  bothMiss "xadd_misses" [.xadd false .stack] ++
  bothMiss "lockxadd_misses" [.xadd true .stack] ++
  bothMiss "lfenced_misses" [.lfence] ++
  bothMiss "mfenced_misses" [.mfence] ++
  bothMiss "sfenced_misses" [.sfence] ++
  bothMiss "sfenced_misses2x" [.sfence,.sfence] ++
  bothMiss "sfence_lfence_misses" [.sfence] [.lfence] ++
  [⟨"add_fencesolo",[.add false .buffer],[],[]⟩,
   ⟨"lockadd_fencesolo",[.add true .buffer],[],[]⟩,
   ⟨"xadd_fencesolo",[.xadd false .buffer],[],[]⟩,
   ⟨"lockxadd_fencesolo",[.xadd true .buffer],[],[]⟩,
   loadMiss "syscall_misses" syscall123456,
   loadMiss "syscall_misses_lfence" (.lfence::syscall123456)]

theorem kernels_labels : (kernels.map Kernel.benchName).Nodup := by decide

/-- The end of a trip: `add rdx, STRIDE`, `and rdx, MASK` and `dec rdi`. -/
def advance (s : State) : State :=
  {s with
    regs := {s.regs with
      rdx := (s.regs.rdx+BitVec.ofNat 64 stride) &&& BitVec.ofNat 64 mask
      rdi := s.regs.rdi-1}
    flags := subFlags s.regs.rdi 1}

/-- One trip of `.top`. -/
def trip (os : Os) (K : Kernel) (s : State) : State := advance (K.body.foldl (exec os) s)

/-- The state at `.top` after `push 0`. -/
def entry (start iters rsp : Word) (mem : Memory) : State where
  regs := ⟨0,1,0,iters,start,rsp-8⟩
  flags := ⟨true,false,false⟩
  mem := mem.store (rsp-8).toNat 8 0
  walk := []
  stack := [⟨rsp-8,8,true⟩]

def parallelMissMacroFull (os : Os) (K : Kernel) (start iters rsp : Word) (mem : Memory)
    (fuel : ℕ) : Option State :=
  (doWhile (fun s => some (trip os K s)) (fun s => s.flags.jnz) fuel
    (entry start iters rsp mem)).map (fun r => r.1)

/-- The widths of the accesses to the buffer that an instruction makes. -/
def Instr.walks : Instr → List (ℕ × Bool)
  | movLoad => [(4,false)]
  | movStore => [(4,true)]
  | add _ .buffer | xadd _ .buffer => [(8,true)]
  | _ => []

/-- The registers that the walk depends on. -/
def Regs.SameWalk (r r' : Regs) : Prop := r'.rdx = r.rdx ∧ r'.rdi = r.rdi ∧ r'.rsi = r.rsi

/-- The accesses of some widths at the current place of the walk. -/
def accessesAt (r : Regs) (widths : List (ℕ × Bool)) : List Access :=
  widths.map (fun w => ⟨Operand.buffer.address r,w.1,w.2⟩)

lemma Regs.SameWalk.refl (r : Regs) : r.SameWalk r := ⟨rfl,rfl,rfl⟩

@[simp] lemma touch_regs (s : State) (bytes : ℕ) (writes : Bool) (o : Operand) :
    (s.touch bytes writes o).regs = s.regs := by cases o <;> rfl

lemma exec_regs (os : Os) (s : State) (i : Instr) : s.regs.SameWalk (exec os s i).regs := by
  cases i with
  | movLoad | movStore | add | xadd => simp [exec,Regs.SameWalk]
  | movEax value => exact ⟨rfl,rfl,rfl⟩
  | nop | lfence | mfence | sfence => exact Regs.SameWalk.refl s.regs
  | syscall =>
    obtain ⟨hrdx,hrdi,hrsi,-⟩ := os.keeps s.regs s.mem
    exact ⟨hrdx,hrdi,hrsi⟩

lemma exec_walk (os : Os) (s : State) (i : Instr) :
    (exec os s i).walk = s.walk ++ accessesAt s.regs i.walks := by
  have hnone : s.walk ++ accessesAt s.regs [] = s.walk := List.append_nil _
  cases i with
  | movLoad | movStore => rfl
  | add lock o | xadd lock o =>
    cases o with
    | buffer => rfl
    | stack => simp only [exec,State.touch,Instr.walks,hnone]
  | movEax | nop | lfence | mfence | sfence | syscall => exact hnone.symm

lemma foldl_exec_walk (os : Os) (l : List Instr) (s : State) :
    s.regs.SameWalk (l.foldl (exec os) s).regs ∧
      (l.foldl (exec os) s).walk = s.walk ++ accessesAt s.regs (l.flatMap Instr.walks) := by
  induction l generalizing s with
  | nil => exact ⟨Regs.SameWalk.refl s.regs,(List.append_nil _).symm⟩
  | cons i l ih =>
    obtain ⟨hrdx,hrdi,hrsi⟩ := exec_regs os s i
    obtain ⟨⟨hrdx',hrdi',hrsi'⟩,hwalk'⟩ := ih (exec os s i)
    refine ⟨⟨hrdx'.trans hrdx,hrdi'.trans hrdi,hrsi'.trans hrsi⟩,?_⟩
    have hplace : Operand.buffer.address (exec os s i).regs = Operand.buffer.address s.regs := by
      rw [Operand.address,Operand.address,hrdx,hrsi]
    rw [List.foldl_cons,hwalk',exec_walk,List.flatMap_cons,accessesAt,accessesAt,accessesAt,hplace,
      List.map_append,List.append_assoc]

/-- Every kernel has one instruction that accesses the buffer. -/
lemma kernels_walk {K : Kernel} (h : K ∈ kernels) :
    ∃ w : ℕ × Bool, 0 < w.1 ∧ w.1 ≤ 8 ∧ K.body.flatMap Instr.walks = [w] := by
  have hall : ∀ K ∈ kernels, K.body.flatMap Instr.walks ∈
      ([[(4,false)],[(4,true)],[(8,true)]] : List (List (ℕ × Bool))) := by decide
  have hw := hall K h
  simp only [List.mem_cons,List.not_mem_nil,or_false] at hw
  rcases hw with hw | hw | hw
  · exact ⟨_,by decide,by decide,hw⟩
  · exact ⟨_,by decide,by decide,hw⟩
  · exact ⟨_,by decide,by decide,hw⟩

/-- The byte offset of access `k`. -/
def offset (k : ℕ) : ℕ := stride*k%size

/-- Every access starts a line. -/
lemma offset_line (k : ℕ) : offset k = 64*(199*k%2^19) := by
  rw [offset,show stride*k = 64*(199*k) by rw [stride]; omega,show size = 64*2^19 from rfl,
    Nat.mul_mod_mul_left]

lemma offset_succ (k : ℕ) : (offset k+stride)%size = offset (k+1) := by
  rw [offset,offset,Nat.mod_add_mod,Nat.mul_succ]

/-- `add rdx, STRIDE` with `and rdx, MASK`. -/
lemma advance_rdx {rdx : Word} {k : ℕ} (h : rdx.toNat = offset k) :
    ((rdx+BitVec.ofNat 64 stride) &&& BitVec.ofNat 64 mask).toNat = offset (k+1) := by
  have hlt : offset k < 2^25 := Nat.mod_lt _ (by decide)
  have hmask : (BitVec.ofNat 64 mask).toNat = 2^25-1 := rfl
  have hstride : (BitVec.ofNat 64 stride).toNat = stride := rfl
  have hfits : offset k+stride < 2^64 := by
    rw [stride]
    omega
  rw [BitVec.toNat_and,hmask,Nat.and_two_pow_sub_one_eq_mod,BitVec.toNat_add,h,hstride,
    Nat.mod_eq_of_lt hfits]
  exact offset_succ k

section Walk
variable (os : Os) {K : Kernel} {w : ℕ × Bool} (hK : K.body.flatMap Instr.walks = [w])
  (start iters rsp : Word) (mem : Memory)

/-- The state at the top of trip `k`, counted from zero. -/
def atTop (os : Os) (K : Kernel) (start iters rsp : Word) (mem : Memory) (k : ℕ) : State :=
  (trip os K)^[k] (entry start iters rsp mem)

/-- Access `k`. -/
def accessOf (w : ℕ × Bool) (start : Word) (k : ℕ) : Access :=
  ⟨start+BitVec.ofNat 64 (offset k),w.1,w.2⟩

include hK in
/-- The invariant at the top of a trip: where the walk stands and which accesses it has made. -/
theorem atTop_walk (k : ℕ) :
    (atTop os K start iters rsp mem k).regs.rsi = start ∧
    (atTop os K start iters rsp mem k).regs.rdx.toNat = offset k ∧
    (atTop os K start iters rsp mem k).walk = (List.range k).map (accessOf w start) := by
  induction k with
  | zero => exact ⟨rfl,rfl,rfl⟩
  | succ k ih =>
    obtain ⟨hrsi,hrdx,hwalk⟩ := ih
    have hsucc : atTop os K start iters rsp mem (k+1) =
        trip os K (atTop os K start iters rsp mem k) := Function.iterate_succ_apply' _ _ _
    generalize atTop os K start iters rsp mem k = s at hrsi hrdx hwalk hsucc
    obtain ⟨⟨hrdx',-,hrsi'⟩,hwalk'⟩ := foldl_exec_walk os K.body s
    rw [hsucc]
    refine ⟨hrsi'.trans hrsi,advance_rdx (by rw [hrdx',hrdx]),hwalk'.trans ?_⟩
    rw [hwalk,hK,List.range_succ,List.map_append,accessesAt,List.map_singleton,List.map_singleton,
      accessOf,Operand.address,hrsi,← hrdx,BitVec.ofNat_toNat,BitVec.setWidth_eq]

/-- Whatever the payload, `rdi` counts the trips. -/
theorem parallelMissMacroFull_eq {fuel : ℕ} (hfuel : decTrips iters ≤ fuel) :
    parallelMissMacroFull os K start iters rsp mem fuel =
      some (atTop os K start iters rsp mem (decTrips iters)) := by
  have hrdi : ∀ s, (K.body.foldl (exec os) s).regs.rdi = s.regs.rdi := fun s =>
    (foldl_exec_walk os K.body s).1.2.1
  rw [parallelMissMacroFull,doWhile_dec (fun s : State => s.regs.rdi) (by decide)
    (fun s => congrArg (·-1) (hrdi s))
    (fun s => congrArg (fun x => (subFlags x 1).jnz) (hrdi s)) _ fuel hfuel]
  rfl

end Walk

section Buffer
variable {start : Word} (halloc : start.toNat+size ≤ 2^64) (w : ℕ × Bool)
include halloc

lemma accessOf_addr (k : ℕ) : (accessOf w start k).addr.toNat = start.toNat+64*(199*k%2^19) := by
  have hlt : 199*k%2^19 < 2^19 := Nat.mod_lt _ (by decide)
  rw [accessOf,BitVec.toNat_add,BitVec.toNat_ofNat,offset_line]
  rw [size] at halloc
  omega

/-- Two accesses are the same exactly if full rounds lie between them. -/
lemma accessOf_eq_iff (i j : ℕ) :
    accessOf w start i = accessOf w start j ↔ i%2^19 = j%2^19 := by
  constructor
  · intro h
    have haddr := congrArg (fun a => a.addr.toNat) h
    simp only [accessOf_addr halloc] at haddr
    have hline : 199*i ≡ 199*j [MOD 2^19] := by
      rw [Nat.ModEq]
      omega
    exact Nat.ModEq.cancel_left_of_coprime (by decide) hline
  · intro h
    have hline : 199*i ≡ 199*j [MOD 2^19] := Nat.ModEq.mul_left 199 h
    rw [accessOf,accessOf,offset_line,offset_line,hline]

end Buffer

/-- For every iteration count and in every kernel the accesses stay inside the buffer, any `2^19`
consecutive ones visit every line exactly once, and the walk repeats after `2^19` accesses, not
before. -/
theorem parallelMiss_covers (os : Os) {K : Kernel} (hK : K ∈ kernels)
    (start iters rsp : Word) (mem : Memory) (halloc : start.toNat+size ≤ 2^64) :
    ∃ final, (∀ fuel, decTrips iters ≤ fuel →
        parallelMissMacroFull os K start iters rsp mem fuel = some final) ∧
      final.walk.length = decTrips iters ∧
      (∀ a ∈ final.walk, start.toNat ≤ a.addr.toNat ∧
        a.addr.toNat+a.bytes ≤ start.toNat+size) ∧
      (∀ j, j+size/64 ≤ decTrips iters → ∀ line < size/64,
        ∃! k, (j ≤ k ∧ k < j+size/64) ∧ ∃ a, final.walk[k]? = some a ∧
          start.toNat+64*line ≤ a.addr.toNat ∧
          a.addr.toNat+a.bytes ≤ start.toNat+64*(line+1)) ∧
      ∀ i < decTrips iters, ∀ j < decTrips iters,
        (final.walk[i]? = final.walk[j]? ↔ i%(size/64) = j%(size/64)) := by
  obtain ⟨w,hpos,hle,hw⟩ := kernels_walk hK
  obtain ⟨-,-,hwalk⟩ := atTop_walk os hw start iters rsp mem (decTrips iters)
  have hget : ∀ k < decTrips iters,
      (atTop os K start iters rsp mem (decTrips iters)).walk[k]? = some (accessOf w start k) := by
    intro k hk
    rw [hwalk,List.getElem?_map,List.getElem?_range hk,Option.map_some]
  have hline : ∀ k, 199*k%2^19 < 2^19 := fun k => Nat.mod_lt _ (by decide)
  have hsize : size = 64*2^19 := rfl
  refine ⟨_,fun fuel hfuel => parallelMissMacroFull_eq os start iters rsp mem hfuel,?_,?_,?_,?_⟩
  · rw [hwalk,List.length_map,List.length_range]
  · intro a ha
    rw [hwalk] at ha
    obtain ⟨k,-,rfl⟩ := List.mem_map.mp ha
    have haddr := accessOf_addr halloc w k
    have hlt := hline k
    have hwidth : (accessOf w start k).bytes = w.1 := rfl
    omega
  · intro j hj line hlt
    refine (existsUnique_congr fun k => and_congr_right fun hk => ?_).mp
      (existsUnique_stride (by decide : Nat.Coprime 199 (size/64)) j hlt)
    have haddr := accessOf_addr halloc w k
    have hwidth : (accessOf w start k).bytes = w.1 := rfl
    simp only [hget k (by omega),Option.some.injEq,exists_eq_left',haddr,hwidth]
    rw [show size/64 = 2^19 from rfl]
    omega
  · intro i hi j hj
    rw [hget i hi,hget j hj,Option.some.injEq]
    exact accessOf_eq_iff halloc w i j

/-- A kernel with system calls, with the iteration count that it is registered with. -/
theorem parallelMiss_covers_syscall :
    ∃ final, (∀ fuel, decTrips (524288 : Word) ≤ fuel →
        parallelMissMacroFull ⟨fun r m => ({r with rax := -38},m),fun _ _ => ⟨rfl,rfl,rfl,rfl⟩⟩
          (loadMiss "syscall_misses" syscall123456) 0x200000 524288 0x8000 (fun _ => 0) fuel =
            some final) ∧
      final.walk.length = decTrips (524288 : Word) ∧
      (∀ a ∈ final.walk, 0x200000 ≤ a.addr.toNat ∧ a.addr.toNat+a.bytes ≤ 0x200000+size) ∧
      (∀ j, j+size/64 ≤ decTrips (524288 : Word) → ∀ line < size/64,
        ∃! k, (j ≤ k ∧ k < j+size/64) ∧ ∃ a, final.walk[k]? = some a ∧
          0x200000+64*line ≤ a.addr.toNat ∧ a.addr.toNat+a.bytes ≤ 0x200000+64*(line+1)) ∧
      ∀ i < decTrips (524288 : Word), ∀ j < decTrips (524288 : Word),
        (final.walk[i]? = final.walk[j]? ↔ i%(size/64) = j%(size/64)) :=
  parallelMiss_covers _ (by simp [kernels]) 0x200000 524288 0x8000 (fun _ => 0) (by decide)

end UarchBench.ParallelMiss
