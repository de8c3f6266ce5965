import UarchBench.Base.Countdown
import UarchBench.Base.WrapMemory
import Mathlib.Data.BitVec
import Mathlib.Tactic.Ring

/-! Kernels that increment words below the stack pointer: with an index that counts down or with a
pointer that walks down, and with one instruction or three for each word. -/
namespace UarchBench.Dendibakh
open Base

abbrev Word := BitVec 64

structure Regs where
  rax : Word
  rcx : Word
  rdx : Word
  rdi : Word
  rsp : Word

/-- The memory operands: `[rsp + rdi * 4 - 4]` and `[rcx]`. -/
inductive Operand
  | indexed
  | pointer
  deriving DecidableEq, Repr

def Operand.address (r : Regs) : Operand → Word
  | indexed => r.rsp+r.rdi*4-4
  | pointer => r.rcx

/-- A `DWORD` in memory. -/
def load32 (m : WrapMemory 64) (a : Word) : BitVec 32 := BitVec.ofNat 32 (m.load a 4)

def store32 (m : WrapMemory 64) (a : Word) (v : BitVec 32) : WrapMemory 64 := m.store a 4 v.toNat

inductive Instr
  | movRaxRdi
  | shlRax (count : ℕ)
  | leaRcx (disp : Word)
  | subRspRax
  | addRspRax
  | inc (o : Operand)
  | add (o : Operand) (value : BitVec 32)
  | movLoad (o : Operand)
  | incEdx
  | movStore (o : Operand)
  | subRcx (value : Word)
  deriving DecidableEq, Repr

structure State where
  regs : Regs
  flags : Flags
  mem : WrapMemory 64
  /-- The addresses of the words written so far. -/
  writes : List Word

/-- A write of 32 bits. -/
def State.write (s : State) (a : Word) (v : BitVec 32) : State :=
  {s with mem := store32 s.mem a v, writes := s.writes ++ [a]}

/-- The flags are only read behind `dec rdi`, which sets them again. -/
def exec (s : State) : Instr → State
  | .movRaxRdi => {s with regs := {s.regs with rax := s.regs.rdi}}
  | .shlRax count => {s with regs := {s.regs with rax := s.regs.rax <<< count}}
  | .leaRcx disp => {s with regs := {s.regs with rcx := s.regs.rsp+disp}}
  | .subRspRax => {s with regs := {s.regs with rsp := s.regs.rsp-s.regs.rax}}
  | .addRspRax => {s with regs := {s.regs with rsp := s.regs.rsp+s.regs.rax}}
  | .inc o => s.write (o.address s.regs) (load32 s.mem (o.address s.regs)+1)
  | .add o value => s.write (o.address s.regs) (load32 s.mem (o.address s.regs)+value)
  | .movLoad o =>
    {s with regs := {s.regs with rdx := (load32 s.mem (o.address s.regs)).setWidth 64}}
  | .incEdx => {s with regs := {s.regs with rdx := (s.regs.rdx.setWidth 32+1).setWidth 64}}
  | .movStore o => s.write (o.address s.regs) (s.regs.rdx.setWidth 32)
  | .subRcx value => {s with regs := {s.regs with rcx := s.regs.rcx-value}}

/-- One of the five functions: the instructions in front of its loop and those of its trips. -/
structure Kernel where
  benchName : String
  setup : List Instr
  body : List Instr

def dendibakhFused : Kernel :=
  ⟨"dendibakh_fused",[.movRaxRdi,.shlRax 2,.subRspRax],[.inc .indexed]⟩

def dendibakhFusedSimple : Kernel :=
  ⟨"dendibakh_fused_simple",[.movRaxRdi,.shlRax 2,.leaRcx (-4),.subRspRax],
    [.inc .pointer,.subRcx 4]⟩

def dendibakhFusedAddSimple : Kernel :=
  ⟨"dendibakh_fused_add_simple",[.movRaxRdi,.shlRax 2,.leaRcx (-4),.subRspRax],
    [.add .pointer 1,.subRcx 4]⟩

def dendibakhFusedAdd : Kernel :=
  ⟨"dendibakh_fused_add",[.movRaxRdi,.shlRax 2,.subRspRax],[.add .indexed 1]⟩

def dendibakhUnfused : Kernel :=
  ⟨"dendibakh_unfused",[.movRaxRdi,.shlRax 2,.subRspRax],
    [.movLoad .indexed,.incEdx,.movStore .indexed]⟩

def kernels : List Kernel :=
  [dendibakhFused,dendibakhFusedSimple,dendibakhFusedAddSimple,dendibakhFusedAdd,
    dendibakhUnfused]

theorem kernels_labels : (kernels.map Kernel.benchName).Nodup := by decide

/-- `dec rdi`. -/
def decRdi (s : State) : State :=
  {s with regs := {s.regs with rdi := s.regs.rdi-1}, flags := subFlags s.regs.rdi 1}

def trip (K : Kernel) (s : State) : State := decRdi (K.body.foldl exec s)

/-- A call with some contents of the registers, up to the return. -/
def run (K : Kernel) (regs : Regs) (flags : Flags) (mem : WrapMemory 64) (fuel : ℕ) :
    Option State :=
  (doWhile (fun s => some (trip K s)) (fun s => s.flags.jnz) fuel
    (K.setup.foldl exec ⟨regs,flags,mem,[]⟩)).map (fun r => exec r.1 .addRspRax)

/-- Word `k` below the stack pointer, counted from zero. -/
def wordAt (rsp : Word) (k : ℕ) : Word := rsp-4*(BitVec.ofNat 64 k+1)

/-- How many bytes lie between a byte and the stack pointer. -/
def below (rsp x : Word) : ℕ := (rsp-1-x).toNat

/-- The word at an address is incremented. -/
def incWord (m : WrapMemory 64) (a : Word) : WrapMemory 64 := store32 m a (load32 m a+1)

/-- The first words below the stack pointer are incremented, one after the other. -/
def incrementBelow (rsp : Word) (n : ℕ) (m : WrapMemory 64) : WrapMemory 64 :=
  (List.range n).foldl (fun m k => incWord m (wordAt rsp k)) m

lemma incrementBelow_succ (rsp : Word) (n : ℕ) (m : WrapMemory 64) :
    incrementBelow rsp (n+1) m = incWord (incrementBelow rsp n m) (wordAt rsp n) := by
  rw [incrementBelow,List.range_succ,List.foldl_append]
  rfl

/-- Which bytes a word consists of. -/
lemma wordAt_touches {rsp x : Word} {k : ℕ} (hk : 4*(k+1) ≤ 2^64) :
    (x-wordAt rsp k).toNat < 4 ↔ 4*k ≤ below rsp x ∧ below rsp x < 4*(k+1) := by
  have hdistance : x-wordAt rsp k = BitVec.ofNat 64 (4*k+3)-(rsp-1-x) := by
    have hlast : BitVec.ofNat 64 (4*k+3) = 4*BitVec.ofNat 64 k+3 := by
      rw [BitVec.ofNat_add,BitVec.ofNat_mul]
      rfl
    rw [wordAt,hlast]
    ring
  have hlt := (rsp-1-x).isLt
  rw [hdistance,BitVec.toNat_sub,BitVec.toNat_ofNat,below]
  omega

/-- What a memory owes to another one in which the first words have been incremented. -/
structure Incremented (rsp : Word) (n : ℕ) (m m' : WrapMemory 64) : Prop where
  words : ∀ k < n, load32 m' (wordAt rsp k) = load32 m (wordAt rsp k)+1
  others : ∀ x, 4*n ≤ below rsp x → m' x = m x

lemma load32_store32_same (m : WrapMemory 64) (a : Word) (v : BitVec 32) :
    load32 (store32 m a v) a = v := by
  have hlt : v.toNat < 256^4 := v.isLt
  rw [load32,store32,WrapMemory.load_store_same (by decide),Nat.mod_eq_of_lt hlt,
    BitVec.ofNat_toNat,BitVec.setWidth_eq]

/-- Different words have no byte in common. -/
lemma load32_store32_apart {m : WrapMemory 64} {rsp : Word} {j k : ℕ} {v : BitVec 32}
    (hj : 4*(j+1) ≤ 2^64) (hk : 4*(k+1) ≤ 2^64) (hne : j ≠ k) :
    load32 (store32 m (wordAt rsp j) v) (wordAt rsp k) = load32 m (wordAt rsp k) := by
  rw [load32,load32,store32,WrapMemory.load_store_apart (by decide) (fun x hx => ?_)]
  rw [wordAt_touches hk] at hx
  refine Nat.not_lt.mp (fun hx' => ?_)
  rw [wordAt_touches hj] at hx'
  omega

theorem incrementBelow_incremented (rsp : Word) (m : WrapMemory 64) {n : ℕ} (hn : 4*n ≤ 2^64) :
    Incremented rsp n m (incrementBelow rsp n m) := by
  induction n with
  | zero => exact ⟨fun k hk => absurd hk (Nat.not_lt_zero k),fun x _ => rfl⟩
  | succ n ih =>
    obtain ⟨hwords,hothers⟩ := ih (by omega)
    rw [incrementBelow_succ,incWord]
    have hlast : load32 (incrementBelow rsp n m) (wordAt rsp n) = load32 m (wordAt rsp n) := by
      rw [load32,load32,WrapMemory.load_congr (by decide) (fun x hx => hothers x ?_)]
      exact ((wordAt_touches hn).mp hx).1
    refine ⟨fun k hk => ?_,fun x hx => ?_⟩
    · obtain rfl | hne := eq_or_ne k n
      · rw [load32_store32_same,hlast]
      · rw [load32_store32_apart hn (by omega) (Ne.symm hne)]
        exact hwords k (by omega)
    · rw [store32,WrapMemory.store_outside (Nat.not_lt.mp (fun hx' => ?_))]
      · exact hothers x (by omega)
      · rw [wordAt_touches hn] at hx'
        omega

/-- A kernel starts with the room below the stack pointer, and its trips increment the word of one
operand. -/
structure Increments (K : Kernel) (o : Operand) : Prop where
  setup : ∀ regs flags mem, K.setup.foldl exec ⟨regs,flags,mem,[]⟩ =
    ⟨{regs with
      rax := regs.rdi <<< 2
      rcx := if o = .pointer then regs.rsp+(-4) else regs.rcx
      rsp := regs.rsp-regs.rdi <<< 2},flags,mem,[]⟩
  mem : ∀ s, (trip K s).mem = incWord s.mem (o.address s.regs)
  writes : ∀ s, (trip K s).writes = s.writes ++ [o.address s.regs]
  rsp : ∀ s, (trip K s).regs.rsp = s.regs.rsp
  rax : ∀ s, (trip K s).regs.rax = s.regs.rax
  rdi : ∀ s, (trip K s).regs.rdi = s.regs.rdi-1
  flags : ∀ s, (trip K s).flags = subFlags s.regs.rdi 1
  rcx : o = .pointer → ∀ s, (trip K s).regs.rcx = s.regs.rcx-4

lemma setWidth_edx (v : BitVec 32) : ((v.setWidth 64).setWidth 32 : BitVec 32) = v := by
  rw [BitVec.setWidth_setWidth_of_le v (by decide),BitVec.setWidth_eq]

/-- Three instructions do what a single one does, with the word left in `edx`. -/
lemma unfused_body (s : State) :
    dendibakhUnfused.body.foldl exec s =
      ⟨{s.regs with
        rdx := (load32 s.mem (Operand.indexed.address s.regs)+1).setWidth 64},s.flags,
        incWord s.mem (Operand.indexed.address s.regs),
        s.writes ++ [Operand.indexed.address s.regs]⟩ := by
  simp only [dendibakhUnfused,List.foldl_cons,List.foldl_nil,exec,State.write,setWidth_edx,
    Operand.address,incWord]

lemma unfused_increments : Increments dendibakhUnfused .indexed where
  setup _ _ _ := rfl
  mem s := by rw [trip,unfused_body,decRdi]
  writes s := by rw [trip,unfused_body,decRdi]
  rsp s := by rw [trip,unfused_body,decRdi]
  rax s := by rw [trip,unfused_body,decRdi]
  rdi s := by rw [trip,unfused_body,decRdi]
  flags s := by rw [trip,unfused_body,decRdi]
  rcx h := nomatch h

lemma kernels_increment {K : Kernel} (h : K ∈ kernels) : ∃ o, Increments K o := by
  simp only [kernels,List.mem_cons,List.not_mem_nil,or_false] at h
  rcases h with rfl | rfl | rfl | rfl | rfl
  · exact ⟨.indexed,fun _ _ _ => rfl,fun _ => rfl,fun _ => rfl,fun _ => rfl,fun _ => rfl,
      fun _ => rfl,fun _ => rfl,fun h => nomatch h⟩
  · exact ⟨.pointer,fun _ _ _ => rfl,fun _ => rfl,fun _ => rfl,fun _ => rfl,fun _ => rfl,
      fun _ => rfl,fun _ => rfl,fun _ _ => rfl⟩
  · exact ⟨.pointer,fun _ _ _ => rfl,fun _ => rfl,fun _ => rfl,fun _ => rfl,fun _ => rfl,
      fun _ => rfl,fun _ => rfl,fun _ _ => rfl⟩
  · exact ⟨.indexed,fun _ _ _ => rfl,fun _ => rfl,fun _ => rfl,fun _ => rfl,fun _ => rfl,
      fun _ => rfl,fun _ => rfl,fun h => nomatch h⟩
  · exact ⟨.indexed,unfused_increments⟩

section Loop
variable {K : Kernel} {o : Operand} (hK : Increments K o) (regs : Regs) (flags : Flags)
  (mem : WrapMemory 64)

/-- The invariant at the top of a trip: some words have been incremented, and the operand is the
next one. -/
structure Walked (o : Operand) (regs : Regs) (mem : WrapMemory 64) (k : ℕ) (s : State) :
    Prop where
  rsp : s.regs.rsp = regs.rsp-regs.rdi <<< 2
  rax : s.regs.rax = regs.rdi <<< 2
  rdi : s.regs.rdi = regs.rdi-BitVec.ofNat 64 k
  rcx : o = .pointer → s.regs.rcx = wordAt regs.rsp k
  mem : s.mem = incrementBelow regs.rsp k mem
  writes : s.writes = (List.range k).map (wordAt regs.rsp)

lemma ofNat_succ (k : ℕ) : BitVec.ofNat 64 (k+1) = BitVec.ofNat 64 k+1 := BitVec.ofNat_add k 1

variable {regs mem} in
/-- Both expressions address the same word. -/
lemma Walked.address {k : ℕ} {s : State} (hs : Walked o regs mem k s) :
    o.address s.regs = wordAt regs.rsp k := by
  cases o with
  | indexed =>
    have hshift : regs.rdi <<< 2 = regs.rdi*4 := BitVec.shiftLeft_eq_mul_twoPow regs.rdi 2
    rw [Operand.address,hs.rsp,hs.rdi,hshift,wordAt]
    ring
  | pointer => exact hs.rcx rfl

include hK

lemma setup_walked :
    Walked o regs mem 0 (K.setup.foldl exec ⟨regs,flags,mem,[]⟩) := by
  rw [hK.setup]
  refine ⟨rfl,rfl,(BitVec.sub_zero regs.rdi).symm,fun ho => ?_,rfl,rfl⟩
  dsimp only
  rw [if_pos ho,wordAt]
  change regs.rsp+(-4) = regs.rsp-4*(0+1)
  ring

variable {regs mem} in
lemma trip_walked {k : ℕ} {s : State} (hs : Walked o regs mem k s) :
    Walked o regs mem (k+1) (trip K s) := by
  have haddress := hs.address
  refine ⟨?_,?_,?_,fun ho => ?_,?_,?_⟩
  · rw [hK.rsp,hs.rsp]
  · rw [hK.rax,hs.rax]
  · rw [hK.rdi,hs.rdi,ofNat_succ]
    ring
  · rw [hK.rcx ho,hs.rcx ho,wordAt,wordAt,ofNat_succ]
    ring
  · rw [hK.mem,haddress,hs.mem,incrementBelow_succ]
  · rw [hK.writes,haddress,hs.writes,List.range_succ,List.map_append,List.map_singleton]

lemma iterate_walked (k : ℕ) :
    Walked o regs mem k ((trip K)^[k] (K.setup.foldl exec ⟨regs,flags,mem,[]⟩)) := by
  induction k with
  | zero => exact setup_walked hK regs flags mem
  | succ k ih =>
    rw [Function.iterate_succ_apply']
    exact trip_walked hK ih

/-- The whole call. -/
theorem run_eq (hpos : 0 < regs.rdi.toNat) :
    ∃ final, (∀ fuel, regs.rdi.toNat ≤ fuel → run K regs flags mem fuel = some final) ∧
      final.mem = incrementBelow regs.rsp regs.rdi.toNat mem ∧
      final.writes = (List.range regs.rdi.toNat).map (wordAt regs.rsp) ∧
      final.regs.rsp = regs.rsp := by
  have hwalked := iterate_walked hK regs flags mem regs.rdi.toNat
  have hrdi : (K.setup.foldl exec ⟨regs,flags,mem,[]⟩).regs.rdi = regs.rdi := by rw [hK.setup]
  refine ⟨exec _ .addRspRax,fun fuel hfuel => ?_,hwalked.mem,hwalked.writes,?_⟩
  · have htrips : decTrips (K.setup.foldl exec ⟨regs,flags,mem,[]⟩).regs.rdi =
        regs.rdi.toNat := by rw [hrdi,decTrips_of_pos hpos]
    have hloop : doWhile (fun s => some (trip K s)) (fun s => s.flags.jnz) fuel
        (K.setup.foldl exec ⟨regs,flags,mem,[]⟩) = some (_,_) :=
      doWhile_dec (fun s : State => s.regs.rdi) (by decide) hK.rdi
        (fun s => congrArg Flags.jnz (hK.flags s)) _ fuel (by rwa [htrips])
    rw [htrips] at hloop
    rw [run,hloop]
    rfl
  · rw [exec]
    dsimp only
    rw [hwalked.rsp,hwalked.rax]
    ring

end Loop

/-- Every kernel increments the words below the stack pointer one after the other, writes to nothing
else and restores the stack pointer. As far as there are so many bytes, each word is then greater by
one, and all other bytes are as before. -/
theorem kernels_increment_below (regs : Regs) (flags : Flags) (mem : WrapMemory 64)
    (hcount : 1 ≤ regs.rdi.toNat) :
    ∃ mem', (∀ K ∈ kernels, ∃ final,
        (∀ fuel, regs.rdi.toNat ≤ fuel → run K regs flags mem fuel = some final) ∧
        final.mem = mem' ∧ final.regs.rsp = regs.rsp ∧
        final.writes = (List.range regs.rdi.toNat).map (wordAt regs.rsp)) ∧
      mem' = incrementBelow regs.rsp regs.rdi.toNat mem ∧
      (4*regs.rdi.toNat ≤ 2^64 →
        (∀ k < regs.rdi.toNat,
          load32 mem' (wordAt regs.rsp k) = load32 mem (wordAt regs.rsp k)+1) ∧
        ∀ x, 4*regs.rdi.toNat ≤ below regs.rsp x → mem' x = mem x) := by
  refine ⟨_,fun K hK => ?_,rfl,fun hroom => ?_⟩
  · obtain ⟨o,ho⟩ := kernels_increment hK
    obtain ⟨final,hrun,hmem,hwrites,hrsp⟩ := run_eq ho regs flags mem hcount
    exact ⟨final,hrun,hmem,hrsp,hwrites⟩
  · obtain ⟨hwords,hothers⟩ := incrementBelow_incremented regs.rsp mem hroom
    exact ⟨hwords,hothers⟩

/-- Three words of ones, which become zero. -/
theorem kernels_increment_below_three :
    ∃ mem', (∀ K ∈ kernels, ∃ final,
        (∀ fuel, 3 ≤ fuel → run K ⟨0,0,0,3,0x8000⟩ ⟨false,false,false⟩ (fun _ => 255) fuel =
          some final) ∧
        final.mem = mem' ∧ final.regs.rsp = 0x8000 ∧ final.writes = [0x7ffc,0x7ff8,0x7ff4]) ∧
      ∀ k < 3, load32 mem' (wordAt 0x8000 k) = 0 := by
  obtain ⟨mem',hrun,-,hwords⟩ := kernels_increment_below ⟨0,0,0,3,0x8000⟩ ⟨false,false,false⟩
    (fun _ => 255) (by decide)
  have hones : ∀ a : Word, WrapMemory.load (fun _ => 255) a 4 = 2^32-1 := fun _ => by
    simp [WrapMemory.load]
  refine ⟨mem',hrun,fun k hk => ?_⟩
  rw [(hwords (by decide)).1 k hk,load32,hones]
  rfl

end UarchBench.Dendibakh
