import UarchBench.Kernels.Machine
import UarchBench.Timing.Libpfc

/-! The benchmarks with embedded counter reads: the counters are read in front of the code under test
and behind it, and the differences are stored into the object of the caller. -/
namespace UarchBench.RawPmc
open Base Machine Libpfc

def pfcnowClk : Word := 8
def pfcnowUbase : Word := 24

def rdpmc64 (n : Word) : List Instr :=
  [.op .mov .w64 .rcx (.imm n),.rdpmc,.shl .rdx 32,.op .or .w64 .rax (.reg .rdx)]

def readpmc0StartNofence : List Instr := [rdpmc64 0x40000001,[.movqTo .xmm0 .rax]].flatten

def readpmc0EndNofence : List Instr :=
  [rdpmc64 0x40000001,[.movqFrom .rdx .xmm0,.op .sub .w64 .rax (.reg .rdx)]].flatten

def readpmc0Start : List Instr := [[.mfence,.lfence],readpmc0StartNofence,[.lfence]].flatten

def readpmc0End : List Instr := [[.lfence],readpmc0EndNofence,[.lfence]].flatten

def readpmc4Start : List Instr :=
  [[.mfence,.lfence],readpmc0StartNofence,
   rdpmc64 0,[.pinsrq .xmm1 .rax .low],
   rdpmc64 1,[.pinsrq .xmm1 .rax .high],
   rdpmc64 2,[.pinsrq .xmm2 .rax .low],
   rdpmc64 3,[.lfence,.pinsrq .xmm2 .rax .high]].flatten

def readpmc4End : List Instr :=
  [[.lfence],readpmc0EndNofence,[.movqTo .xmm0 .rax],
   rdpmc64 0,[.pinsrq .xmm3 .rax .low],
   rdpmc64 1,[.pinsrq .xmm3 .rax .high],
   rdpmc64 2,[.pinsrq .xmm4 .rax .low],
   rdpmc64 3,[.pinsrq .xmm4 .rax .high],
   [.psubq .xmm3 .xmm1,.psubq .xmm4 .xmm2]].flatten

def storePfcnow0 (r : Reg) : List Instr := [.store 8 ⟨r,pfcnowClk,none⟩ (.reg .rax)]

def storePfcnow4 (r : Reg) : List Instr :=
  [.pextrq ⟨r,pfcnowClk,none⟩ .xmm0 .low,
   .pextrq ⟨r,pfcnowUbase+0,none⟩ .xmm3 .low,
   .pextrq ⟨r,pfcnowUbase+8,none⟩ .xmm3 .high,
   .pextrq ⟨r,pfcnowUbase+16,none⟩ .xmm4 .low,
   .pextrq ⟨r,pfcnowUbase+24,none⟩ .xmm4 .high]

/-- A method: `code` is between the two reads. -/
def rawMethod (pre start : List Instr) (code : Code Instr Counter) (stop post : List Instr) :
    Code Instr Counter :=
  .seq (.block (pre ++ start)) (.seq code (.block (stop ++ post)))

def rawRdpmc0Overhead : Code Instr Counter :=
  rawMethod [.op .mov .w64 .r8 (.reg .rdx)] readpmc0Start (.block [])
    (readpmc0End ++ storePfcnow0 .r8) []

def rawRdpmc4Overhead : Code Instr Counter :=
  rawMethod [.op .mov .w64 .r8 (.reg .rdx)] readpmc4Start (.block [])
    (readpmc4End ++ storePfcnow4 .r8) []

def storeRawLibpfc : Code Instr Counter :=
  rawMethod [.op .sub .w64 .rsp (.imm 128),.op .mov .w64 .r8 (.reg .rdx)] readpmc4Start
    (.block (List.replicate 100 (.store 1 ⟨.rsp,0,none⟩ (.imm 42))))
    (readpmc4End ++ storePfcnow4 .r8) [.op .add .w64 .rsp (.imm 128)]

/-- The oneshot methods around the code under test. -/
def oneshot (code : List Instr) : Code Instr Counter :=
  rawMethod [.push .rbx,.op .mov .w64 .r8 (.reg .rdx),.op .xor .w32 .rax (.reg .rax),.cpuid,
      .op .xor .w32 .r9 (.reg .r9)] readpmc0StartNofence
    (.block [[.lfence],code,[.lfence]].flatten) (readpmc0EndNofence ++ storePfcnow0 .r8) [.pop .rbx]

def adds (n : ℕ) : List Instr := List.replicate n (.op .add .w64 .r9 (.imm 1))

def oneshot6adds : Code Instr Counter := oneshot (adds 6)
def oneshot11adds : Code Instr Counter := oneshot (adds 11)
def oneshotLoadadds : Code Instr Counter :=
  oneshot (.op .mov .w64 .r9 (.mem ⟨.rsp,0,none⟩)::adds 6)

/-- The training loop of `aliasing_loads_raw`. -/
def trainTop : Code Instr Counter :=
  .loop (.block [List.replicate 3 (.op .imul .w64 .r11 (.imm 1)),
    [.store 4 ⟨.r11,0,none⟩ (.imm 0),.op .mov .w32 .rax (.mem ⟨.rsi,0,none⟩),.nop]].flatten)
    ⟨.r10,.w64⟩

/-- The payload of its timed loop, which comes twice. -/
def aliasingRep : List Instr :=
  [List.replicate 5 (.op .imul .w64 .r9 (.imm 1)),
   [.store 4 ⟨.r9,0,none⟩ (.imm 0),.op .add .w32 .rax (.mem ⟨.rsi,8,none⟩)]].flatten

/-- The timed loop; without nops, the jump over them goes to the next instruction. -/
def aliasingTop : Code Instr Counter :=
  .loop (.block [[.jmpNext],aliasingRep,aliasingRep].flatten) ⟨.rdi,.w64⟩

def aliasingLoads : Code Instr Counter :=
  .seq (.block [.op .mov .w32 .rcx (.imm 10)])
    (.loop (.seq (.block [.lea .r11 ⟨.rsi,64,none⟩,.op .mov .w64 .r10 (.imm 2000)])
      (.seq trainTop
        (.seq (.block [.lea .r9 ⟨.rsi,8,none⟩,.lfence,.op .mov .w64 .rdi (.imm 1),.jmpNext])
          (.seq aliasingTop (.block [.lfence]))))) ⟨.rcx,.w32⟩)

def aliasingLoadsRaw : Code Instr Counter :=
  rawMethod [.op .mov .w64 .r8 (.reg .rdx)] readpmc4Start aliasingLoads
    (readpmc4End ++ storePfcnow4 .r8) []

def repcount : ℕ := 10

/-- One repetition in the loop of `mixed_loads_raw`; `r` counts from one. -/
def mixedRep (r : ℕ) : List Instr :=
  [List.replicate 2 (.lea .r11 ⟨.r11,0,some (.rax,2)⟩),
   [.store 4 ⟨.r11,0,some (.rax,1)⟩ (.reg .rax),.op .mov .w32 .r9 (.mem ⟨.rsi,64,none⟩),.nop,.nop,
    .op .mov .w32 .rax (.mem ⟨.rsi,0,none⟩),.op .imul .w32 .rax (.imm 1)],
   if r = repcount/2 then [.nop,.nop,.nop] else []].flatten

def mixedLoads : Code Instr Counter :=
  .seq (.block [.op .xor .w32 .rax (.reg .rax),.op .mov .w32 .rcx (.imm 1)])
    (.loop (.seq (.block [.lea .r11 ⟨.rsi,64,none⟩,.op .mov .w64 .rdi (.imm 1000)])
      (.seq (.loop (.block ((List.range repcount).flatMap (fun r => mixedRep (r+1)))) ⟨.rdi,.w64⟩)
        (.block [.lfence]))) ⟨.rcx,.w32⟩)

def mixedLoadsRaw : Code Instr Counter :=
  rawMethod [.op .mov .w64 .r8 (.reg .rdx)] readpmc4Start mixedLoads
    (readpmc4End ++ storePfcnow4 .r8) []

/-- A counter that a method reads: its index in the object of the caller, what selects it, and the
lane that keeps its first value. -/
structure Reading where
  slot : Fin totalCounters
  select : BitVec 32
  xmm : Xmm
  lane : Lane

/-- The counter that `readpmc0` reads. -/
def readings0 : List Reading := [⟨1,0x40000001,.xmm0,.low⟩]

/-- The counters that `readpmc4` reads, in order. -/
def readings4 : List Reading :=
  readings0 ++ [⟨3,0,.xmm1,.low⟩,⟨4,1,.xmm1,.high⟩,⟨5,2,.xmm2,.low⟩,⟨6,3,.xmm2,.high⟩]

/-- The registers that the reads and the code between them keep. -/
def kept : List Reg := [.rbx,.rsp,.rbp,.rsi,.r8,.r12,.r13,.r14,.r15]

/-- The halves of a counter are put together again. -/
lemma halves_eq (v : Word) : Width.w32.trunc v ||| ((v >>> 32) <<< 32) = v := by
  apply BitVec.eq_of_getLsbD_eq
  intro i hi
  rw [Width.trunc,BitVec.getLsbD_or,BitVec.getLsbD_setWidth,BitVec.getLsbD_setWidth,
    BitVec.getLsbD_shiftLeft,BitVec.getLsbD_ushiftRight]
  by_cases hlt : i < 32
  · simp [hlt,hi]
  · simp [hlt,hi,Nat.add_sub_of_le (Nat.le_of_not_lt hlt)]

/-- The effect of `rdpmc64`. -/
def readCounter (env : Env) (k : Word) (s : Cpu) : Cpu :=
  let v := env.counter s.reads (k.setWidth 32)
  ((s.tick.set .rcx k).set .rdx ((v >>> 32) <<< 32)).set .rax v

lemma foldl_rdpmc64 (env : Env) (k : Word) (s : Cpu) :
    (rdpmc64 k).foldl (exec env) s = readCounter env k s := by
  simp only [rdpmc64,List.foldl_cons,List.foldl_nil,exec,Op.apply,Src.value,Cpu.rdpmc]
  apply Cpu.ext
  · funext r
    have hhalves := halves_eq (env.counter s.reads (k.setWidth 32))
    by_cases hrax : r = .rax
    · simpa [hrax,readCounter,Width.trunc] using hhalves
    · by_cases hrdx : r = .rdx
      · simp [hrdx,readCounter,Width.trunc]
      · by_cases hrcx : r = .rcx
        · simp [hrcx,readCounter,Width.trunc]
        · simp [hrax,hrdx,hrcx,readCounter]
  · rfl
  · rfl
  · rfl

section Read
variable (env : Env) (k : Word) (s : Cpu) 

@[simp] lemma readCounter_rax :
    (readCounter env k s).regs .rax = env.counter s.reads (k.setWidth 32) := Cpu.set_same ..

@[simp] lemma readCounter_regs {r : Reg} (hrax : r ≠ .rax) (hrcx : r ≠ .rcx) (hrdx : r ≠ .rdx) :
    (readCounter env k s).regs r = s.regs r := by
  rw [readCounter,Cpu.set_of_ne _ _ _ _ hrax,Cpu.set_of_ne _ _ _ _ hrdx,
    Cpu.set_of_ne _ _ _ _ hrcx,Cpu.tick_regs]

@[simp] lemma readCounter_xmm : (readCounter env k s).xmm = s.xmm := rfl
@[simp] lemma readCounter_mem : (readCounter env k s).mem = s.mem := rfl
@[simp] lemma readCounter_reads : (readCounter env k s).reads = s.reads+1 := rfl

end Read

lemma kept_ne {r : Reg} (hr : r ∈ kept) : r ≠ .rax ∧ r ≠ .rcx ∧ r ≠ .rdx := by
  revert r
  decide

/-- What the reads in front of the code do. -/
structure Starts (env : Env) (start : List Instr) (readings : List Reading) (s : Cpu) : Prop where
  regs : ∀ r ∈ kept, (start.foldl (exec env) s).regs r = s.regs r
  mem : (start.foldl (exec env) s).mem = s.mem
  reads : (start.foldl (exec env) s).reads = s.reads+readings.length
  saved : ∀ e ∈ readings.zipIdx, (start.foldl (exec env) s).xmm e.1.xmm e.1.lane =
    env.counter (s.reads+e.2) e.1.select

/-- The stores of some differences into the object of the caller. -/
def storeCounters (m : WrapMemory 64) (results : Word) (l : List (Fin totalCounters × Word)) :
    WrapMemory 64 :=
  l.foldl (fun m e => m.store (results+BitVec.ofNat 64 (8*e.1)) 8 e.2.toNat) m

/-- What the reads behind the code do. -/
structure Stops (env : Env) (stop : List Instr) (readings : List Reading) (s : Cpu) : Prop where
  regs : ∀ r ∈ kept, (stop.foldl (exec env) s).regs r = s.regs r
  reads : (stop.foldl (exec env) s).reads = s.reads+readings.length
  mem : (stop.foldl (exec env) s).mem = storeCounters s.mem (s.regs .r8)
    (readings.zipIdx.map (fun e =>
      (e.1.slot,env.counter (s.reads+e.2) e.1.select-s.xmm e.1.xmm e.1.lane)))

/-- The differences of the counters, by their indexes; `n` reads were before. -/
def differences (env : Env) (readings : List Reading) (n : ℕ) : List (Fin totalCounters × Word) :=
  readings.zipIdx.map (fun e => (e.1.slot,
    env.counter (n+readings.length+e.2) e.1.select-env.counter (n+e.2) e.1.select))

section Macros
variable (env : Env) (s : Cpu)

theorem readpmc0StartNofence_starts : Starts env readpmc0StartNofence readings0 s := by
  constructor
  · intro r hr
    obtain ⟨hrax,hrcx,hrdx⟩ := kept_ne hr
    simp [readpmc0StartNofence,foldl_rdpmc64,exec,hrax,hrcx,hrdx]
  · simp [readpmc0StartNofence,foldl_rdpmc64,exec]
  · simp [readpmc0StartNofence,foldl_rdpmc64,exec,readings0]
  · simp [readpmc0StartNofence,foldl_rdpmc64,exec,readings0]

theorem readpmc0Start_starts : Starts env readpmc0Start readings0 s := by
  have hfold : readpmc0Start.foldl (exec env) s = readpmc0StartNofence.foldl (exec env) s := by
    simp only [readpmc0Start,List.flatten_cons,List.flatten_nil,List.append_nil,List.foldl_append,
      List.foldl_cons,List.foldl_nil,exec]
  obtain ⟨hregs,hmem,hreads,hsaved⟩ := readpmc0StartNofence_starts env s
  exact ⟨by rwa [hfold],by rwa [hfold],by rwa [hfold],by rwa [hfold]⟩

theorem readpmc4Start_starts : Starts env readpmc4Start readings4 s := by
  constructor
  · intro r hr
    obtain ⟨hrax,hrcx,hrdx⟩ := kept_ne hr
    simp [readpmc4Start,readpmc0StartNofence,foldl_rdpmc64,exec,hrax,hrcx,hrdx]
  · simp [readpmc4Start,readpmc0StartNofence,foldl_rdpmc64,exec]
  · simp [readpmc4Start,readpmc0StartNofence,foldl_rdpmc64,exec,readings4,readings0]
  · simp [readpmc4Start,readpmc0StartNofence,foldl_rdpmc64,exec,readings4,readings0]

theorem readpmc0EndNofence_stops :
    Stops env (readpmc0EndNofence ++ storePfcnow0 .r8) readings0 s := by
  constructor
  · intro r hr
    obtain ⟨hrax,hrcx,hrdx⟩ := kept_ne hr
    simp [readpmc0EndNofence,storePfcnow0,foldl_rdpmc64,exec,hrax,hrcx,hrdx]
  · simp [readpmc0EndNofence,storePfcnow0,foldl_rdpmc64,exec,readings0]
  · simp [readpmc0EndNofence,storePfcnow0,foldl_rdpmc64,exec,readings0,storeCounters,Addr.eval,
      Src.value,Op.apply,Width.trunc,pfcnowClk]
    rfl

theorem readpmc0End_stops : Stops env (readpmc0End ++ storePfcnow0 .r8) readings0 s := by
  have hfold : (readpmc0End ++ storePfcnow0 .r8).foldl (exec env) s =
      (readpmc0EndNofence ++ storePfcnow0 .r8).foldl (exec env) s := by
    simp only [readpmc0End,List.flatten_cons,List.flatten_nil,List.append_nil,List.foldl_append,
      List.foldl_cons,List.foldl_nil,exec]
  obtain ⟨hregs,hreads,hmem⟩ := readpmc0EndNofence_stops env s
  exact ⟨by rwa [hfold],by rwa [hfold],by rwa [hfold]⟩

theorem readpmc4End_stops : Stops env (readpmc4End ++ storePfcnow4 .r8) readings4 s := by
  constructor
  · intro r hr
    obtain ⟨hrax,hrcx,hrdx⟩ := kept_ne hr
    simp [readpmc4End,readpmc0EndNofence,storePfcnow4,foldl_rdpmc64,exec,hrax,hrcx,hrdx]
  · simp [readpmc4End,readpmc0EndNofence,storePfcnow4,foldl_rdpmc64,exec,readings4,readings0]
  · simp [readpmc4End,readpmc0EndNofence,storePfcnow4,foldl_rdpmc64,exec,readings4,readings0,
      storeCounters,Addr.eval,Src.value,Op.apply,Width.trunc,pfcnowClk,pfcnowUbase]
    rfl

end Macros

/-- An address in one of some ranges. -/
def Within (ranges : List (Word × ℕ)) (a : Word) : Prop := ∃ p ∈ ranges, (a-p.1).toNat < p.2

/-- What the code between the reads keeps: it writes memory only in the ranges. -/
structure Keeps (ranges : List (Word × ℕ)) (s t : Cpu) : Prop where
  regs : ∀ r ∈ kept, t.regs r = s.regs r
  xmm : ∀ x ∈ [Xmm.xmm0,.xmm1,.xmm2], t.xmm x = s.xmm x
  reads : t.reads = s.reads
  mem : ∀ a, ¬Within ranges a → t.mem a = s.mem a

namespace Keeps
variable {ranges : List (Word × ℕ)} {s t : Cpu}

lemma refl : Keeps ranges s s := ⟨fun _ _ => rfl,fun _ _ => rfl,rfl,fun _ _ => rfl⟩

lemma set (h : Keeps ranges s t) {r : Reg} (hr : r ∉ kept) (v : Word) :
    Keeps ranges s (t.set r v) := by
  refine ⟨fun r' hr' => ?_,h.xmm,h.reads,h.mem⟩
  have hne : r' ≠ r := fun heq => hr (heq ▸ hr')
  rw [Cpu.set_of_ne _ _ _ _ hne,h.regs r' hr']

lemma write (h : Keeps ranges s t) {a : Word} {bytes : ℕ} (ha : (a,bytes) ∈ ranges) (v : Word) :
    Keeps ranges s (t.write a bytes v) := by
  refine ⟨h.regs,h.xmm,h.reads,fun x hx => ?_⟩
  rw [Cpu.write_mem,WrapMemory.store_outside (Nat.not_lt.mp (fun hlt => hx ⟨_,ha,hlt⟩)),h.mem x hx]

end Keeps

/-- What a method does up to its last instructions; `s` is the state in front of the first read. -/
structure Middle (env : Env) (readings : List Reading) (ranges : List (Word × ℕ)) (s t : Cpu) :
    Prop where
  regs : ∀ r ∈ kept, t.regs r = s.regs r
  reads : t.reads = s.reads+2*readings.length
  mem : ∃ m : WrapMemory 64, (∀ a, ¬Within ranges a → m a = s.mem a) ∧
    t.mem = storeCounters m (s.regs .r8) (differences env readings s.reads)

section Method
variable {env : Env} {pre start stop post : List Instr} {code : Code Instr Counter}
  {readings : List Reading} {ranges : List (Word × ℕ)}

theorem middle_of_keeps (hxmm : ∀ e ∈ readings, e.xmm ∈ [Xmm.xmm0,.xmm1,.xmm2])
    (hstop : ∀ s, Stops env stop readings s) {s u : Cpu} (hstart : Starts env start readings s)
    (hkeeps : Keeps ranges (start.foldl (exec env) s) u) :
    Middle env readings ranges s (stop.foldl (exec env) u) := by
  obtain ⟨hregs,hreads,hmem⟩ := hstop u
  refine ⟨fun r hr => ?_,?_,u.mem,fun a ha => ?_,?_⟩
  · rw [hregs r hr,hkeeps.regs r hr,hstart.regs r hr]
  · rw [hreads,hkeeps.reads,hstart.reads]
    omega
  · rw [hkeeps.mem a ha,hstart.mem]
  · have hr8 : Reg.r8 ∈ kept := by decide
    rw [hmem,hkeeps.regs _ hr8,hstart.regs _ hr8,differences,hkeeps.reads,hstart.reads]
    refine congrArg _ (List.map_congr_left (fun e he => ?_))
    have hmem : e.1 ∈ readings := by
      obtain ⟨-,-,h⟩ := List.mem_zipIdx he
      exact h ▸ List.getElem_mem _
    rw [hkeeps.xmm _ (hxmm _ hmem),hstart.saved e he]

end Method

/-- The size of a `LibpfcNow`. -/
def nowSize : ℕ := 8*totalCounters

/-- The `LibpfcNow` at an address. -/
def now (m : WrapMemory 64) (results : Word) : Now Word :=
  ⟨fun i => BitVec.ofNat 64 (m.load (results+BitVec.ofNat 64 (8*i)) 8)⟩

lemma cnt_store (m : WrapMemory 64) (results v : Word) (i j : Fin totalCounters) :
    (now (m.store (results+BitVec.ofNat 64 (8*j)) 8 v.toNat) results).cnt i =
      if i = j then v else (now m results).cnt i := by
  change BitVec.ofNat 64 (WrapMemory.load _ (results+BitVec.ofNat 64 (8*i)) 8) = _
  split_ifs with hij
  · have hsame := WrapMemory.load_store_same (m := m) (a := results+BitVec.ofNat 64 (8*j))
      (v := v.toNat) (show 8 ≤ 2^64 by decide)
    rw [hij,hsame]
    apply BitVec.eq_of_toNat_eq
    rw [BitVec.toNat_ofNat]
    have hv := v.isLt
    omega
  · have hi : (i : ℕ) < 7 := i.isLt
    have hj : (j : ℕ) < 7 := j.isLt
    have hne : (i : ℕ) ≠ j := Fin.val_ne_of_ne hij
    rw [WrapMemory.load_store_apart (by decide) (fun x hx => by bv_omega)]
    rfl

/-- Different indexes get their own values, the other counters are as before. -/
lemma cnt_storeCounters {l : List (Fin totalCounters × Word)} (hl : (l.map Prod.fst).Nodup)
    (m : WrapMemory 64) (results : Word) (i : Fin totalCounters) :
    (now (storeCounters m results l) results).cnt i =
      (l.lookup i).getD ((now m results).cnt i) := by
  induction l generalizing m with
  | nil => rfl
  | cons e l ih =>
    obtain ⟨he,hl⟩ := List.nodup_cons.mp hl
    rw [storeCounters,List.foldl_cons]
    refine (ih hl _).trans ?_
    rw [cnt_store,List.lookup_cons]
    by_cases hi : i = e.1
    · have hnone : l.lookup i = none := by
        rw [List.lookup_eq_none_iff]
        intro p hp
        rw [bne_iff_ne]
        intro heq
        exact he (List.mem_map.mpr ⟨p,hp,by rw [← heq,hi]⟩)
      rw [hnone,if_pos hi,hi,beq_self_eq_true]
      rfl
    · rw [if_neg hi,beq_false_of_ne hi]

lemma storeCounters_outside {a results : Word} (ha : nowSize ≤ (a-results).toNat)
    (m : WrapMemory 64) (l : List (Fin totalCounters × Word)) :
    storeCounters m results l a = m a := by
  induction l generalizing m with
  | nil => rfl
  | cons e l ih =>
    rw [storeCounters,List.foldl_cons]
    refine (ih _).trans (WrapMemory.store_outside ?_)
    have he : (e.1 : ℕ) < 7 := e.1.isLt
    change 56 ≤ _ at ha
    bv_omega

/-- The registers that a method keeps for its caller. -/
def calleeSaved : List Reg := [.rbx,.rsp,.rbp,.r12,.r13,.r14,.r15]

/-- What a method does: it stores the differences into the object, and otherwise writes memory only
in the ranges. -/
structure Measures (env : Env) (readings : List Reading) (ranges : List (Word × ℕ)) (s t : Cpu) :
    Prop where
  regs : ∀ r ∈ calleeSaved, t.regs r = s.regs r
  reads : t.reads = s.reads+2*readings.length
  cnt : ∀ i, (now t.mem (s.regs .rdx)).cnt i =
    ((differences env readings s.reads).lookup i).getD ((now s.mem (s.regs .rdx)).cnt i)
  mem : ∀ a, ¬Within ranges a → nowSize ≤ (a-s.regs .rdx).toNat → t.mem a = s.mem a

/-- No byte of the object is in the ranges. -/
def Apart (ranges : List (Word × ℕ)) (results : Word) : Prop :=
  ∀ a, Within ranges a → nowSize ≤ (a-results).toNat

lemma differences_nodup (env : Env) {readings : List Reading} (n : ℕ)
    (h : (readings.map Reading.slot).Nodup) :
    ((differences env readings n).map Prod.fst).Nodup := by
  have hslots : (differences env readings n).map Prod.fst = readings.map Reading.slot := by
    rw [differences,List.map_map]
    conv_rhs => rw [← List.zipIdx_map_fst 0 readings,List.map_map]
    rfl
  rw [hslots]
  exact h

/-- Equal bytes of the object give equal counters. -/
lemma now_congr {m m' : WrapMemory 64} {results : Word}
    (h : ∀ a, (a-results).toNat < nowSize → m a = m' a) (i : Fin totalCounters) :
    (now m results).cnt i = (now m' results).cnt i := by
  have hi : (i : ℕ) < 7 := i.isLt
  have hload : m.load (results+BitVec.ofNat 64 (8*i)) 8 =
      m'.load (results+BitVec.ofNat 64 (8*i)) 8 := by
    refine WrapMemory.load_congr (by decide) (fun x hx => h x ?_)
    change _ < 56
    bv_omega
  exact congrArg (BitVec.ofNat 64) hload

section Around
variable {env : Env} {pre start stop post : List Instr} {code : Code Instr Counter}
  {readings : List Reading} {ranges inner : List (Word × ℕ)}

theorem measures_of_keeps (hxmm : ∀ e ∈ readings, e.xmm ∈ [Xmm.xmm0,.xmm1,.xmm2])
    (hslots : (readings.map Reading.slot).Nodup) (hstart : ∀ s, Starts env start readings s)
    (hstop : ∀ s, Stops env stop readings s) (hinner : ∀ a, Within inner a → Within ranges a)
    {s before : Cpu} (hbefore : pre.foldl (exec env) s = before)
    (hr8 : before.regs .r8 = s.regs .rdx) (hreads : before.reads = s.reads)
    (hmem : ∀ a, ¬Within ranges a → before.mem a = s.mem a)
    (hcode : ∀ u, (∀ r ∈ kept, u.regs r = before.regs r) → u.mem = before.mem →
      (semantics env).Triple (· = u) code (Keeps inner u))
    (hpost : ∀ u, Middle env readings inner before u →
      (∀ r ∈ calleeSaved, (post.foldl (exec env) u).regs r = s.regs r) ∧
        (post.foldl (exec env) u).reads = u.reads ∧ (post.foldl (exec env) u).mem = u.mem)
    (hapart : Apart ranges (s.regs .rdx)) :
    (semantics env).Triple (· = s) (rawMethod pre start code stop post)
      (Measures env readings ranges s) := by
  intro s' hs
  rw [hs]
  have hstarts := hstart before
  obtain ⟨u,hend,hkeeps⟩ := hcode (start.foldl (exec env) before) hstarts.regs hstarts.mem _ rfl
  have hmiddle := middle_of_keeps hxmm hstop hstarts hkeeps
  obtain ⟨hregs,hreads',hmem'⟩ := hpost _ hmiddle
  have hfirst : (semantics env).Ends (.block (pre ++ start)) s (start.foldl (exec env) before) :=
    ⟨0,fun fuel _ => by
      rw [← hbefore,← List.foldl_append]
      rfl⟩
  have hlast : (semantics env).Ends (.block (stop ++ post)) u
      (post.foldl (exec env) (stop.foldl (exec env) u)) :=
    ⟨0,fun fuel _ => by
      rw [← List.foldl_append]
      rfl⟩
  refine ⟨_,hfirst.seq (hend.seq hlast),hregs,?_,fun i => ?_,fun a ha hout => ?_⟩
  · rw [hreads',hmiddle.reads,hreads]
  · obtain ⟨m,hm,hstored⟩ := hmiddle.mem
    rw [hmem',hstored,hr8,cnt_storeCounters (differences_nodup env _ hslots),hreads]
    refine congrArg _ (now_congr (fun a ha => ?_) i)
    have hout : ¬Within ranges a := fun hin => absurd (hapart a hin) (Nat.not_le.mpr ha)
    rw [hm a (fun hin => hout (hinner a hin)),hmem a hout]
  · obtain ⟨m,hm,hstored⟩ := hmiddle.mem
    rw [hmem',hstored,hr8,storeCounters_outside hout,hm a (fun hin => ha (hinner a hin)),
      hmem a ha]

end Around

section Between
variable {env : Env} {u : Cpu}

lemma adds_keeps {code : List Instr} (h : ∀ i ∈ code, i = .lfence ∨ ∃ o w src, i = .op o w .r9 src) :
    (semantics env).Triple (· = u) (.block code) (Keeps [] u) := by
  refine (Semantics.Triple.block_keeps (P := Keeps [] u) (fun i hi t ht => ?_)).conseq
    (fun t ht => ht ▸ Keeps.refl) (fun _ ht => ht)
  rcases h i hi with rfl | ⟨o,w,src,rfl⟩
  · exact ht
  · exact ht.set (by decide) _

lemma stores_keeps : (semantics env).Triple (· = u)
    (.block (List.replicate 100 (.store 1 ⟨.rsp,0,none⟩ (.imm 42)))) (Keeps [(u.regs .rsp,1)] u) := by
  refine (Semantics.Triple.block_keeps (P := Keeps [(u.regs .rsp,1)] u) (fun i hi t ht => ?_)).conseq
    (fun t ht => ht ▸ Keeps.refl) (fun _ ht => ht)
  rw [List.eq_of_mem_replicate hi]
  have hrsp : (Addr.mk .rsp 0 none).eval t = u.regs .rsp := by
    rw [Addr.eval,ht.regs _ (by decide)]
    exact BitVec.add_zero _
  change Keeps _ u (t.write _ 1 _)
  rw [hrsp]
  exact ht.write (List.mem_singleton.mpr rfl) _

/-- The state in a loop: what the code keeps, and registers with known values. -/
structure Holds (ranges : List (Word × ℕ)) (u : Cpu) (known : List (Reg × Word)) (t : Cpu) :
    Prop where
  keeps : Keeps ranges u t
  regs : ∀ p ∈ known, t.regs p.1 = p.2

namespace Holds
variable {ranges : List (Word × ℕ)} {known : List (Reg × Word)} {t : Cpu}

lemma start : Holds ranges u [] u := ⟨Keeps.refl,fun _ hp => absurd hp List.not_mem_nil⟩

lemma tail {p : Reg × Word} (h : Holds ranges u (p::known) t) : Holds ranges u known t :=
  ⟨h.keeps,fun q hq => h.regs q (List.mem_cons_of_mem p hq)⟩

/-- An instruction that leaves the known values. -/
lemma set (h : Holds ranges u known t) {r : Reg} (hr : r ∉ kept) {v : Word}
    (hv : ∀ p ∈ known, p.1 = r → v = p.2) : Holds ranges u known (t.set r v) := by
  refine ⟨h.keeps.set hr v,fun p hp => ?_⟩
  by_cases hpr : p.1 = r
  · rw [hpr,Cpu.set_same,hv p hp hpr]
  · rw [Cpu.set_of_ne _ _ _ _ hpr,h.regs p hp]

/-- An instruction that gives a register its value. -/
lemma add (h : Holds ranges u known t) {r : Reg} (hr : r ∉ kept) (v : Word)
    (hne : ∀ p ∈ known, p.1 ≠ r) : Holds ranges u ((r,v)::known) (t.set r v) := by
  refine ⟨h.keeps.set hr v,fun p hp => ?_⟩
  rcases List.mem_cons.mp hp with rfl | hp
  · exact Cpu.set_same ..
  · rw [Cpu.set_of_ne _ _ _ _ (hne p hp),h.regs p hp]

lemma write (h : Holds ranges u known t) {a : Word} {bytes : ℕ} (ha : (a,bytes) ∈ ranges)
    (v : Word) : Holds ranges u known (t.write a bytes v) := ⟨h.keeps.write ha v,h.regs⟩

/-- A loop whose counter is known in front of it. -/
theorem loop {body : Code Instr Counter} {c : Counter} {n : ℕ} (hn : 0 < n) (hlt : n < 2^32)
    (hc : c.reg ∉ kept) (hne : ∀ p ∈ known, p.1 ≠ c.reg)
    (hbody : ∀ v, (semantics env).Triple (Holds ranges u ((c.reg,v)::known)) body
      (Holds ranges u ((c.reg,v)::known))) :
    (semantics env).Triple (Holds ranges u ((c.reg,BitVec.ofNat 64 n)::known)) (.loop body c)
      (Holds ranges u known) := by
  have hcons : ∀ v t, Holds ranges u ((c.reg,v)::known) t ↔
      Holds ranges u known t ∧ t.regs c.reg = v := fun v t =>
    ⟨fun h => ⟨h.tail,h.regs _ (List.mem_cons_self ..)⟩,
      fun h => ⟨h.1.keeps,List.forall_mem_cons.mpr ⟨h.2,h.1.regs⟩⟩⟩
  have hloop := counted_loop (c := c) (P := Holds ranges u known) hn hlt
    (fun t v ht => ht.set hc (fun p hp heq => absurd heq (hne p hp)))
    (fun v => (hbody v).conseq (fun t ht => (hcons v t).mpr ht) (fun t ht => (hcons v t).mp ht))
  exact hloop.conseq (fun t ht => (hcons _ t).mp ht) (fun _ ht => ht)

end Holds

/-- What `aliasing_loads_raw` writes. -/
def aliasingRanges (rsi : Word) : List (Word × ℕ) := [(rsi+64,4),(rsi+8,4)]

lemma trainTop_holds (v : Word) : (semantics env).Triple
    (Holds (aliasingRanges (u.regs .rsi)) u
      [(.r10,BitVec.ofNat 64 2000),(.r11,u.regs .rsi+64),(.rcx,v)]) trainTop
    (Holds (aliasingRanges (u.regs .rsi)) u [(.r11,u.regs .rsi+64),(.rcx,v)]) := by
  refine Holds.loop (c := ⟨.r10,.w64⟩) (n := 2000) (by decide) (by decide) (by decide) (by simp)
    (fun w => Semantics.Triple.block_keeps (fun i hi t ht => ?_))
  have hr11 : t.regs .r11 = u.regs .rsi+64 := ht.regs (.r11,_) (by simp)
  simp only [List.flatten_cons,List.flatten_nil,List.append_nil,List.mem_append,
    List.mem_replicate,List.mem_cons,List.not_mem_nil,or_false] at hi
  rcases hi with ⟨-,rfl⟩ | rfl | rfl | rfl
  · change Holds _ _ _ (t.set .r11 (t.regs .r11*1#64))
    rw [hr11,BitVec.mul_one]
    exact ht.set (by decide) (by simp)
  · change Holds _ _ _ (t.write (t.regs .r11+0#64) 4 0)
    rw [hr11,BitVec.add_zero]
    exact ht.write (List.mem_cons_self ..) _
  · exact ht.set (by decide) (by simp)
  · exact ht

lemma aliasingTop_holds (v : Word) : (semantics env).Triple
    (Holds (aliasingRanges (u.regs .rsi)) u
      [(.rdi,BitVec.ofNat 64 1),(.r9,u.regs .rsi+8),(.rcx,v)]) aliasingTop
    (Holds (aliasingRanges (u.regs .rsi)) u [(.r9,u.regs .rsi+8),(.rcx,v)]) := by
  refine Holds.loop (c := ⟨.rdi,.w64⟩) (n := 1) (by decide) (by decide) (by decide) (by simp)
    (fun w => Semantics.Triple.block_keeps (fun i hi t ht => ?_))
  have hr9 : t.regs .r9 = u.regs .rsi+8 := ht.regs (.r9,_) (by simp)
  simp only [aliasingRep,List.flatten_cons,List.flatten_nil,List.append_nil,List.mem_append,
    List.mem_replicate,List.mem_cons,List.not_mem_nil,or_false,or_self] at hi
  rcases hi with rfl | ⟨-,rfl⟩ | rfl | rfl
  · exact ht
  · change Holds _ _ _ (t.set .r9 (t.regs .r9*1#64))
    rw [hr9,BitVec.mul_one]
    exact ht.set (by decide) (by simp)
  · change Holds _ _ _ (t.write (t.regs .r9+0#64) 4 0)
    rw [hr9,BitVec.add_zero]
    exact ht.write (List.mem_cons_of_mem _ (List.mem_singleton.mpr rfl)) _
  · exact ht.set (by decide) (by simp)

theorem aliasingLoads_keeps : (semantics env).Triple (· = u) aliasingLoads
    (Keeps (aliasingRanges (u.regs .rsi)) u) := by
  have hrsi : ∀ {known t}, Holds (aliasingRanges (u.regs .rsi)) u known t →
      t.regs .rsi = u.regs .rsi := fun ht => ht.keeps.regs _ (by decide)
  have hset : (semantics env).Triple (· = u) (.block [.op .mov .w32 .rcx (.imm 10)])
      (Holds (aliasingRanges (u.regs .rsi)) u [(.rcx,BitVec.ofNat 64 10)]) :=
    Semantics.Triple.block (fun t ht => ht ▸ Holds.start.add (by decide) _ (by simp))
  refine hset.seq ((Holds.loop (c := ⟨.rcx,.w32⟩) (n := 10) (by decide) (by decide) (by decide)
    (by simp) (fun v => ?_)).conseq (fun _ ht => ht) (fun _ ht => ht.keeps))
  have htrain : (semantics env).Triple (Holds (aliasingRanges (u.regs .rsi)) u [(.rcx,v)])
      (.block [.lea .r11 ⟨.rsi,64,none⟩,.op .mov .w64 .r10 (.imm 2000)])
      (Holds (aliasingRanges (u.regs .rsi)) u
        [(.r10,BitVec.ofNat 64 2000),(.r11,u.regs .rsi+64),(.rcx,v)]) := by
    refine Semantics.Triple.block (fun t ht => ?_)
    change Holds _ _ _ ((t.set .r11 (t.regs .rsi+64)).set .r10 (BitVec.ofNat 64 2000))
    rw [hrsi ht]
    exact (ht.add (by decide) _ (by simp)).add (by decide) _ (by simp)
  have htimed : (semantics env).Triple
      (Holds (aliasingRanges (u.regs .rsi)) u [(.r11,u.regs .rsi+64),(.rcx,v)])
      (.block [.lea .r9 ⟨.rsi,8,none⟩,.lfence,.op .mov .w64 .rdi (.imm 1),.jmpNext])
      (Holds (aliasingRanges (u.regs .rsi)) u
        [(.rdi,BitVec.ofNat 64 1),(.r9,u.regs .rsi+8),(.rcx,v)]) := by
    refine Semantics.Triple.block (fun t ht => ?_)
    change Holds _ _ _ ((t.set .r9 (t.regs .rsi+8)).set .rdi (BitVec.ofNat 64 1))
    rw [hrsi ht]
    exact (ht.tail.add (by decide) _ (by simp)).add (by decide) _ (by simp)
  have hfence : (semantics env).Triple
      (Holds (aliasingRanges (u.regs .rsi)) u [(.r9,u.regs .rsi+8),(.rcx,v)]) (.block [.lfence])
      (Holds (aliasingRanges (u.regs .rsi)) u [(.rcx,v)]) :=
    Semantics.Triple.block (fun _ ht => ht.tail)
  exact htrain.seq ((trainTop_holds v).seq (htimed.seq ((aliasingTop_holds v).seq hfence)))

/-- What `mixed_loads_raw` writes. -/
def mixedRanges (rsi : Word) : List (Word × ℕ) := [(rsi+64,4)]

/-- The word at the start of the buffer. -/
lemma load_buffer {known : List (Reg × Word)} {t : Cpu}
    (ht : Holds (mixedRanges (u.regs .rsi)) u known t) :
    t.mem.load (u.regs .rsi) 4 = u.mem.load (u.regs .rsi) 4 := by
  refine WrapMemory.load_congr (by decide) (fun x hx => ht.keeps.mem x ?_)
  rintro ⟨p,hp,hlt⟩
  rw [List.mem_singleton.mp hp] at hlt
  bv_omega

lemma mixedRep_holds (hzero : u.mem.load (u.regs .rsi) 4 = 0) (v w : Word) {r : ℕ} {i : Instr}
    (hi : i ∈ mixedRep r) {t : Cpu} (ht : Holds (mixedRanges (u.regs .rsi)) u
      [(.rdi,w),(.rax,0#64),(.r11,u.regs .rsi+64),(.rcx,v)] t) :
    Holds (mixedRanges (u.regs .rsi)) u [(.rdi,w),(.rax,0#64),(.r11,u.regs .rsi+64),(.rcx,v)]
      (exec env t i) := by
  have hrax : t.regs .rax = 0#64 := ht.regs (.rax,_) (by simp)
  have hr11 : t.regs .r11 = u.regs .rsi+64 := ht.regs (.r11,_) (by simp)
  have hrsi : t.regs .rsi = u.regs .rsi := ht.keeps.regs _ (by decide)
  have hnops : ∀ i ∈ (if r = repcount/2 then [Instr.nop,.nop,.nop] else []), i = .nop := by
    intro i hi
    split_ifs at hi
    · simpa using hi
    · exact absurd hi List.not_mem_nil
  simp only [mixedRep,List.flatten_cons,List.flatten_nil,List.append_nil,List.mem_append,
    List.mem_replicate,List.mem_cons,List.not_mem_nil,or_false] at hi
  rcases hi with ⟨-,rfl⟩ | (rfl | rfl | rfl | rfl | rfl | rfl) | hi
  · change Holds _ _ _ (t.set .r11 (t.regs .r11+t.regs .rax*2#64+0#64))
    rw [hrax,hr11,BitVec.zero_mul,BitVec.add_zero,BitVec.add_zero]
    exact ht.set (by decide) (by simp)
  · change Holds _ _ _ (t.write (t.regs .r11+t.regs .rax*1#64+0#64) 4 (t.regs .rax))
    rw [hrax,hr11,BitVec.zero_mul,BitVec.add_zero,BitVec.add_zero]
    exact ht.write (List.mem_singleton.mpr rfl) _
  · exact ht.set (by decide) (by simp)
  · exact ht
  · exact ht
  · change Holds _ _ _ (t.set .rax (Width.w32.trunc (t.read (t.regs .rsi+0#64) 4)))
    rw [hrsi,BitVec.add_zero,Cpu.read,load_buffer ht,hzero]
    exact ht.set (by decide) (by simp [Width.trunc])
  · change Holds _ _ _ (t.set .rax (Width.w32.trunc (t.regs .rax*1#64)))
    rw [hrax]
    exact ht.set (by decide) (by simp [Width.trunc])
  · rw [hnops i hi]
    exact ht

theorem mixedLoads_keeps (hzero : u.mem.load (u.regs .rsi) 4 = 0) :
    (semantics env).Triple (· = u) mixedLoads (Keeps (mixedRanges (u.regs .rsi)) u) := by
  have hset : (semantics env).Triple (· = u)
      (.block [.op .xor .w32 .rax (.reg .rax),.op .mov .w32 .rcx (.imm 1)])
      (Holds (mixedRanges (u.regs .rsi)) u [(.rcx,BitVec.ofNat 64 1),(.rax,0#64)]) := by
    refine Semantics.Triple.block (fun t ht => ?_)
    change Holds _ _ _ ((t.set .rax (Width.w32.trunc (t.regs .rax ^^^ t.regs .rax))).set .rcx
      (Width.w32.trunc 1))
    rw [ht,BitVec.xor_self]
    exact (Holds.start.add (by decide) _ (by simp)).add (by decide) _ (by simp)
  refine hset.seq ((Holds.loop (c := ⟨.rcx,.w32⟩) (n := 1) (by decide) (by decide) (by decide)
    (by simp) (fun v => ?_)).conseq (fun _ ht => ht) (fun _ ht => ht.keeps))
  have hinner : (semantics env).Triple
      (Holds (mixedRanges (u.regs .rsi)) u [(.rcx,v),(.rax,0#64)])
      (.block [.lea .r11 ⟨.rsi,64,none⟩,.op .mov .w64 .rdi (.imm 1000)])
      (Holds (mixedRanges (u.regs .rsi)) u
        [(.rdi,BitVec.ofNat 64 1000),(.rax,0#64),(.r11,u.regs .rsi+64),(.rcx,v)]) := by
    refine Semantics.Triple.block (fun t ht => ?_)
    have hrsi : t.regs .rsi = u.regs .rsi := ht.keeps.regs _ (by decide)
    change Holds _ _ _ ((t.set .r11 (t.regs .rsi+64)).set .rdi (BitVec.ofNat 64 1000))
    rw [hrsi]
    have hboth := (ht.add (r := .r11) (by decide) (u.regs .rsi+64) (by simp)).add (r := .rdi)
      (by decide) (BitVec.ofNat 64 1000) (by simp)
    exact ⟨hboth.keeps,fun p hp => hboth.regs p (by
      simp only [List.mem_cons,List.not_mem_nil,or_false] at hp ⊢
      tauto)⟩
  have hloop : (semantics env).Triple
      (Holds (mixedRanges (u.regs .rsi)) u
        [(.rdi,BitVec.ofNat 64 1000),(.rax,0#64),(.r11,u.regs .rsi+64),(.rcx,v)])
      (.loop (.block ((List.range repcount).flatMap (fun r => mixedRep (r+1)))) ⟨.rdi,.w64⟩)
      (Holds (mixedRanges (u.regs .rsi)) u [(.rax,0#64),(.r11,u.regs .rsi+64),(.rcx,v)]) :=
    Holds.loop (c := ⟨.rdi,.w64⟩) (n := 1000) (by decide) (by decide) (by decide) (by simp)
      (fun w => Semantics.Triple.block_keeps (fun i hi t ht => by
        obtain ⟨r,-,hi⟩ := List.mem_flatMap.mp hi
        exact mixedRep_holds hzero v w hi ht))
  refine hinner.seq (hloop.seq (Semantics.Triple.block (fun t ht => ?_)))
  exact ⟨ht.keeps,fun p hp => ht.regs p (by
    simp only [List.mem_cons,List.not_mem_nil,or_false] at hp ⊢
    tauto)⟩

end Between

inductive RawMethod
  | rawRdpmc0Overhead | rawRdpmc4Overhead | storeRawLibpfc | oneshot6adds | oneshot11adds
  | oneshotLoadadds | aliasingLoadsRaw | mixedLoadsRaw
  deriving DecidableEq, Repr

namespace RawMethod

def code : RawMethod → Code Instr Counter
  | rawRdpmc0Overhead => RawPmc.rawRdpmc0Overhead
  | rawRdpmc4Overhead => RawPmc.rawRdpmc4Overhead
  | storeRawLibpfc => RawPmc.storeRawLibpfc
  | oneshot6adds => RawPmc.oneshot6adds
  | oneshot11adds => RawPmc.oneshot11adds
  | oneshotLoadadds => RawPmc.oneshotLoadadds
  | aliasingLoadsRaw => RawPmc.aliasingLoadsRaw
  | mixedLoadsRaw => RawPmc.mixedLoadsRaw

def readings : RawMethod → List Reading
  | rawRdpmc4Overhead | storeRawLibpfc | aliasingLoadsRaw | mixedLoadsRaw => readings4
  | rawRdpmc0Overhead | oneshot6adds | oneshot11adds | oneshotLoadadds => readings0

/-- The memory that a method writes besides the object: its stack and the buffer. -/
def ranges (rsp rsi : Word) : RawMethod → List (Word × ℕ)
  | rawRdpmc0Overhead | rawRdpmc4Overhead => []
  | storeRawLibpfc => [(rsp-128,1)]
  | oneshot6adds | oneshot11adds | oneshotLoadadds => [(rsp-8,8)]
  | aliasingLoadsRaw => aliasingRanges rsi
  | mixedLoadsRaw => mixedRanges rsi

/-- `mixed_loads_raw` relies on a buffer that starts with zeros. -/
def Ready (m : RawMethod) (s : Cpu) : Prop :=
  m = mixedLoadsRaw → s.mem.load (s.regs .rsi) 4 = 0

end RawMethod

section Methods
variable (env : Env) (s : Cpu)

lemma readings0_slots : (∀ e ∈ readings0, e.xmm ∈ [Xmm.xmm0,.xmm1,.xmm2]) ∧
    (readings0.map Reading.slot).Nodup := by decide

lemma readings4_slots : (∀ e ∈ readings4, e.xmm ∈ [Xmm.xmm0,.xmm1,.xmm2]) ∧
    (readings4.map Reading.slot).Nodup := by decide

lemma calleeSaved_subset : ∀ r ∈ calleeSaved, r ∈ kept ∧ r ≠ .r8 := by decide

/-- The methods that only copy the address of the object first. -/
lemma plain_measures {start stop : List Instr} {code : Code Instr Counter}
    {readings : List Reading} {ranges : List (Word × ℕ)}
    (hslots : (∀ e ∈ readings, e.xmm ∈ [Xmm.xmm0,.xmm1,.xmm2]) ∧
      (readings.map Reading.slot).Nodup)
    (hstart : ∀ s, Starts env start readings s) (hstop : ∀ s, Stops env stop readings s)
    (hcode : ∀ u, u.regs .rsi = s.regs .rsi → u.mem = s.mem →
      (semantics env).Triple (· = u) code (Keeps ranges u))
    (hapart : Apart ranges (s.regs .rdx)) :
    (semantics env).Triple (· = s) (rawMethod [.op .mov .w64 .r8 (.reg .rdx)] start code stop [])
      (Measures env readings ranges s) := by
  have hregs : ∀ r ∈ kept, r ≠ .r8 → (s.set .r8 (s.regs .rdx)).regs r = s.regs r :=
    fun r _ hr => Cpu.set_of_ne _ _ _ _ hr
  have hpre : [Instr.op .mov .w64 .r8 (.reg .rdx)].foldl (exec env) s = s.set .r8 (s.regs .rdx) :=
    rfl
  refine measures_of_keeps hslots.1 hslots.2 hstart hstop
    (fun _ h => h) hpre (Cpu.set_same ..) rfl (fun _ _ => rfl)
    (fun u hu hmem => hcode u ?_ hmem) (fun u hu => ⟨fun r hr => ?_,rfl,rfl⟩) hapart
  · rw [hu _ (by decide),hregs _ (by decide) (by decide)]
  · obtain ⟨hkept,hr8⟩ := calleeSaved_subset r hr
    rw [List.foldl_nil,hu.regs r hkept,hregs r hkept hr8]

lemma storeRawLibpfc_measures (hapart : Apart [(s.regs .rsp-128,1)] (s.regs .rdx)) :
    (semantics env).Triple (· = s) storeRawLibpfc
      (Measures env readings4 [(s.regs .rsp-128,1)] s) := by
  have hbefore : ∀ r ∈ kept, r ≠ .r8 → r ≠ .rsp →
      ((s.set .rsp (s.regs .rsp-128)).set .r8 (s.regs .rdx)).regs r = s.regs r :=
    fun r _ hr8 hrsp => by rw [Cpu.set_of_ne _ _ _ _ hr8,Cpu.set_of_ne _ _ _ _ hrsp]
  have hrsp : ((s.set .rsp (s.regs .rsp-128)).set .r8 (s.regs .rdx)).regs .rsp =
      s.regs .rsp-128 := by
    rw [Cpu.set_of_ne _ _ _ _ (by decide),Cpu.set_same]
  have hpre : [Instr.op .sub .w64 .rsp (.imm 128),.op .mov .w64 .r8 (.reg .rdx)].foldl (exec env) s =
      (s.set .rsp (s.regs .rsp-128)).set .r8 (s.regs .rdx) := by
    change (s.set .rsp (s.regs .rsp-128)).set .r8 ((s.set .rsp _).regs .rdx) = _
    rw [Cpu.set_of_ne s .rsp .rdx _ (by decide)]
  refine measures_of_keeps readings4_slots.1 readings4_slots.2 (readpmc4Start_starts env)
    (readpmc4End_stops env) (fun _ h => h) hpre (Cpu.set_same ..) rfl (fun _ _ => rfl) (fun u hu _ => ?_)
    (fun u hu => ⟨fun r hr => ?_,rfl,rfl⟩) hapart
  · rw [← hrsp,← hu _ (by decide)]
    exact stores_keeps
  · obtain ⟨hkept,hr8⟩ := calleeSaved_subset r hr
    change (u.set .rsp (u.regs .rsp+128)).regs r = s.regs r
    by_cases hr : r = .rsp
    · rw [hr,Cpu.set_same,hu.regs _ (by decide),hrsp]
      exact BitVec.sub_add_cancel _ _
    · rw [Cpu.set_of_ne _ _ _ _ hr,hu.regs r hkept,hbefore r hkept hr8 hr]

/-- The first instructions of the oneshot methods. -/
lemma oneshot_before : ∃ before, [Instr.push .rbx,.op .mov .w64 .r8 (.reg .rdx),
      .op .xor .w32 .rax (.reg .rax),.cpuid,.op .xor .w32 .r9 (.reg .r9)].foldl (exec env) s =
        before ∧
    before.regs .r8 = s.regs .rdx ∧ before.reads = s.reads ∧ before.regs .rsp = s.regs .rsp-8 ∧
    before.mem = s.mem.store (s.regs .rsp-8) 8 (s.regs .rbx).toNat ∧
    ∀ r ∈ calleeSaved, r ≠ .rbx → r ≠ .rsp → before.regs r = s.regs r := by
  refine ⟨_,rfl,?_,?_,?_,?_,fun r hr hrbx hrsp => ?_⟩
  · simp [exec,Cpu.push,Cpu.cpuid,Op.apply,Src.value,Width.trunc]
  · simp [exec,Cpu.push,Cpu.cpuid]
  · simp [exec,Cpu.push,Cpu.cpuid]
  · simp [exec,Cpu.push,Cpu.cpuid]
  · have hne : ∀ r ∈ calleeSaved, r ≠ .rax ∧ r ≠ .rcx ∧ r ≠ .rdx ∧ r ≠ .r8 ∧ r ≠ .r9 := by decide
    obtain ⟨hrax,hrcx,hrdx,hr8,hr9⟩ := hne r hr
    simp [exec,Cpu.push,Cpu.cpuid,hrax,hrcx,hrdx,hr8,hr9,hrbx,hrsp]

lemma oneshot_measures {code : List Instr}
    (hcode : ∀ i ∈ code, i = .lfence ∨ ∃ o w src, i = .op o w .r9 src)
    (hapart : Apart [(s.regs .rsp-8,8)] (s.regs .rdx)) :
    (semantics env).Triple (· = s) (oneshot code)
      (Measures env readings0 [(s.regs .rsp-8,8)] s) := by
  obtain ⟨before,hbefore,hr8,hreads,hrsp,hmem,hregs⟩ := oneshot_before env s
  have hinner : ∀ a, Within [] a → Within [(s.regs .rsp-8,8)] a := by
    rintro a ⟨p,hp,-⟩
    exact absurd hp List.not_mem_nil
  refine measures_of_keeps readings0_slots.1 readings0_slots.2
    (readpmc0StartNofence_starts env) (readpmc0EndNofence_stops env) hinner hbefore hr8 hreads
    (fun a ha => ?_) (fun u _ _ => adds_keeps (fun i hi => ?_)) (fun u hu => ?_) hapart
  · rw [hmem]
    exact WrapMemory.store_outside (Nat.not_lt.mp (fun hlt => ha ⟨_,List.mem_singleton.mpr rfl,hlt⟩))
  · simp only [List.flatten_cons,List.flatten_nil,List.append_nil,List.mem_append,
      List.mem_singleton] at hi
    rcases hi with rfl | hi | rfl
    · exact Or.inl rfl
    · exact hcode i hi
    · exact Or.inl rfl
  · have hursp : u.regs .rsp = s.regs .rsp-8 := by rw [hu.regs _ (by decide),hrsp]
    obtain ⟨m,hm,hstored⟩ := hu.mem
    -- the slot of the stack is not part of the object
    have hslot : u.mem.load (s.regs .rsp-8) 8 = (s.regs .rbx).toNat := by
      have hsame : u.mem.load (s.regs .rsp-8) 8 = before.mem.load (s.regs .rsp-8) 8 := by
        refine WrapMemory.load_congr (by decide) (fun x hx => ?_)
        have hout := hapart x ⟨_,List.mem_singleton.mpr rfl,hx⟩
        rw [hstored,hr8,storeCounters_outside hout]
        refine hm x ?_
        rintro ⟨p,hp,-⟩
        exact absurd hp List.not_mem_nil
      have hstore := WrapMemory.load_store_same (m := s.mem) (a := s.regs .rsp-8)
        (v := (s.regs .rbx).toNat) (show 8 ≤ 2^64 by decide)
      rw [hsame,hmem,hstore]
      exact Nat.mod_eq_of_lt (s.regs .rbx).isLt
    refine ⟨fun r hr => ?_,rfl,rfl⟩
    change ((u.set .rsp (u.regs .rsp+8)).set .rbx (u.read (u.regs .rsp) 8)).regs r = s.regs r
    by_cases hrbx : r = .rbx
    · rw [hrbx,Cpu.set_same,hursp,Cpu.read,hslot,BitVec.ofNat_toNat,BitVec.setWidth_eq]
    · rw [Cpu.set_of_ne _ _ _ _ hrbx]
      by_cases hr' : r = .rsp
      · rw [hr',Cpu.set_same,hursp]
        exact BitVec.sub_add_cancel _ _
      · rw [Cpu.set_of_ne _ _ _ _ hr',hu.regs r (calleeSaved_subset r hr).1,hregs r hr hrbx hr']

/-- Every method ends, stores the differences of its counters, and keeps what it must for its
caller. -/
theorem RawMethod.measures (m : RawMethod) (hready : m.Ready s)
    (hapart : Apart (m.ranges (s.regs .rsp) (s.regs .rsi)) (s.regs .rdx)) :
    (semantics env).Triple (· = s) m.code
      (Measures env m.readings (m.ranges (s.regs .rsp) (s.regs .rsi)) s) := by
  have hempty : ∀ u, (semantics env).Triple (· = u) (.block []) (Keeps [] u) := fun u =>
    Semantics.Triple.block (fun t ht => ht ▸ Keeps.refl)
  have hadds : ∀ n, ∀ i ∈ adds n, i = .lfence ∨ ∃ o w src, i = .op o w .r9 src := fun n i hi =>
    Or.inr ⟨.add,.w64,.imm 1,List.eq_of_mem_replicate hi⟩
  cases m with
  | rawRdpmc0Overhead =>
    exact plain_measures env s readings0_slots (readpmc0Start_starts env) (readpmc0End_stops env)
      (fun u _ _ => hempty u) hapart
  | rawRdpmc4Overhead =>
    exact plain_measures env s readings4_slots (readpmc4Start_starts env) (readpmc4End_stops env)
      (fun u _ _ => hempty u) hapart
  | storeRawLibpfc => exact storeRawLibpfc_measures env s hapart
  | oneshot6adds => exact oneshot_measures env s (hadds 6) hapart
  | oneshot11adds => exact oneshot_measures env s (hadds 11) hapart
  | oneshotLoadadds =>
    refine oneshot_measures env s (fun i hi => ?_) hapart
    rcases List.mem_cons.mp hi with rfl | hi
    · exact Or.inr ⟨_,_,_,rfl⟩
    · exact hadds 6 i hi
  | aliasingLoadsRaw =>
    refine plain_measures env s readings4_slots (readpmc4Start_starts env) (readpmc4End_stops env)
      (fun u hrsi _ => ?_) hapart
    rw [RawMethod.ranges,← hrsi]
    exact aliasingLoads_keeps
  | mixedLoadsRaw =>
    refine plain_measures env s readings4_slots (readpmc4Start_starts env) (readpmc4End_stops env)
      (fun u hrsi hmem => ?_) hapart
    rw [RawMethod.ranges,← hrsi]
    exact mixedLoads_keeps (by rw [hrsi,hmem]; exact hready rfl)

end Methods

end UarchBench.RawPmc
