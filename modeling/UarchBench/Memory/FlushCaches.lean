import UarchBench.Base.Loop
import UarchBench.Memory.ShuffledRegion
import UarchBench.Memory.StoragePool

/-! Flushing the caches by reading: passes over growing parts of a static buffer, which is only
allocated anew when it is too small, with one index at half the speed of the other. -/
namespace UarchBench.FlushCaches
open Base StoragePool

/-- `EXTRA_SIZE`. -/
def extraSize : ℕ := 4096

/-- The locals of the inner loop, with the addresses read so far in this pass. -/
structure Scan where
  ifast : ℕ
  islow : ℕ
  sum : UInt8
  reads : List ℕ

def scanTrip (m : Memory) (start workingSet : ℕ) (s : Scan) : Scan :=
  let ifast := if s.ifast ≥ workingSet then 0 else s.ifast
  let slow := (start+s.islow)%addressSpace
  let fast := (start+ifast)%addressSpace
  { ifast := (ifast+cacheLineSize)%addressSpace
    islow := (s.islow+cacheLineSize/2)%addressSpace
    sum := (s.sum ^^^ m slow)+m fast
    reads := s.reads ++ [slow,fast] }

def scan (m : Memory) (start workingSet size fuel : ℕ) (sum : UInt8) : Option Scan :=
  whileLoop (fun s => decide (s.islow < size)) (scanTrip m start workingSet) fuel ⟨0,0,sum,[]⟩

/-- The locals of the outer loop, with the addresses read in each pass. -/
structure Passes where
  size : ℕ
  sum : UInt8
  passes : List (List ℕ)

def pass (m : Memory) (start workingSet fuel : ℕ) (s : Passes) : Option (Passes ⊕ Passes) :=
  let size := if s.size > workingSet then workingSet else s.size
  (scan m start workingSet size fuel s.sum).map (fun r =>
    if size = workingSet then .inr ⟨size,r.sum,s.passes ++ [r.reads]⟩
    else .inl ⟨size*2%addressSpace,r.sum,s.passes ++ [r.reads]⟩)

/-- The static buffer of one instantiation, and the blocks that have been allocated for it. -/
structure Static where
  buffer : Region := ⟨0,0⟩
  blocks : List Block := []

/-- Allocate a larger buffer if this one is too small. -/
def ensureBuffer (alloc : ℕ → Except Outcome ℕ) (workingSet : ℕ) (s : Static) (m : Memory) :
    Except Outcome (Static × Memory) :=
  if s.buffer.size < workingSet then
    let totalSize := (workingSet+2*extraSize)%addressSpace
    match alloc totalSize with
    | .error e => .error e
    | .ok p =>
      .ok (⟨⟨workingSet,(p+extraSize)%addressSpace⟩,s.blocks ++ [⟨p,totalSize⟩]⟩,
        m.fill p totalSize 1)
  else .ok (s,m)

inductive FlushFailure
  | threw (outcome : Outcome)
  | outOfFuel

/-- `flush_helper`; its result is what it has read in each pass. -/
def flushHelper (alloc : ℕ → Except Outcome ℕ) (workingSet fuel : ℕ) (s : Static) (m : Memory) :
    Static × Memory × Except FlushFailure (List (List ℕ)) :=
  match ensureBuffer alloc workingSet s m with
  | .error e => (s,m,.error (.threw e))
  | .ok (s,m) =>
    match loop (pass m s.buffer.start workingSet fuel) fuel ⟨1,0,[]⟩ with
    | none => (s,m,.error .outOfFuel)
    | some r => (s,m,.ok r.passes)

/-- `new char[size]`: an address, or `std::bad_alloc`. -/
abbrev NewArray := ℕ → Option ℕ

/-- A block lies in the address space with its whole size. -/
def NewArray.Spec (newArray : NewArray) : Prop :=
  ∀ size p, newArray size = some p → p+size ≤ addressSpace

/-- One call of `flush_caches` with the answers of the allocators. -/
structure FlushCall where
  workingSet : ℕ
  memalign : Memalign
  newArray : NewArray

/-- The lambda that calls `new_huge_ptr`. -/
def allocHuge (hugepages : Bool) (c : FlushCall) (size : ℕ) : Except Outcome ℕ :=
  (newHugePtr hugepages c.memalign (BitVec.ofNat 64 size)).map (fun r => r.1.toNat)

/-- The lambda with the array of characters. -/
def allocChars (c : FlushCall) (size : ℕ) : Except Outcome ℕ :=
  match c.newArray size with
  | none => .error (.threw "std::bad_alloc")
  | some p => .ok p

structure State where
  huge : Static := {}
  chars : Static := {}
  memory : Memory

/-- One execution of `flush_helper` within a call, with its static data afterwards. -/
structure Execution where
  workingSet : ℕ
  static : Static
  result : Except FlushFailure (List (List ℕ))

def flushCaches (hugepages : Bool) (fuel : ℕ) (s : State) (c : FlushCall) :
    State × List Execution :=
  let (huge,m,result) := flushHelper (allocHuge hugepages c) c.workingSet fuel s.huge s.memory
  match result with
  | .error e => (⟨huge,s.chars,m⟩,[⟨c.workingSet,huge,.error e⟩])
  | .ok passes =>
    let (chars,m,result) := flushHelper (allocChars c) c.workingSet fuel s.chars m
    (⟨huge,chars,m⟩,[⟨c.workingSet,huge,.ok passes⟩,⟨c.workingSet,chars,result⟩])

/-- The executions in a history of calls. -/
def run (hugepages : Bool) (fuel : ℕ) : State → List FlushCall → List Execution
  | _, [] => []
  | s, c::calls =>
    (flushCaches hugepages fuel s c).2 ++
      run hugepages fuel (flushCaches hugepages fuel s c).1 calls

section Pass
variable {m : Memory} {start workingSet size : ℕ}

/-- After some trips every half line up to the slow index has been read. -/
structure Scanned (start workingSet size : ℕ) (s : Scan) : Prop where
  inside : ∀ a ∈ s.reads, start ≤ a ∧ a < start+workingSet
  fast : s.ifast < workingSet+cacheLineSize
  slow : ∃ k, s.islow = 32*k ∧ ∀ j < k, start+32*j ∈ s.reads

variable (hws : workingSet ≤ 2^63) (hspace : start+workingSet ≤ addressSpace)
  (hsize : size ≤ workingSet)
include hws hspace hsize

lemma scanTrip_scanned {s : Scan} (hs : Scanned start workingSet size s)
    (hcond : s.islow < size) :
    Scanned start workingSet size (scanTrip m start workingSet s) ∧
      s.islow < (scanTrip m start workingSet s).islow := by
  obtain ⟨hinside,hfast,k,hk,hreads⟩ := hs
  simp only [addressSpace,cacheLineSize] at *
  have hwrap : (if s.ifast ≥ workingSet then 0 else s.ifast) < workingSet := by
    split <;> omega
  have hslow : (start+s.islow)%2^64 = start+s.islow := Nat.mod_eq_of_lt (by omega)
  have hnext : (s.islow+64/2)%2^64 = 32*(k+1) := by omega
  refine ⟨⟨List.forall_mem_append.mpr ⟨hinside,fun a ha => ?_⟩,?_,k+1,hnext,
    mem_trace_succ hreads (List.mem_cons.mpr (Or.inl ?_))⟩,?_⟩
  · simp only [addressSpace,List.mem_cons,List.not_mem_nil,or_false] at ha
    rcases ha with rfl | rfl
    · omega
    · rw [Nat.mod_eq_of_lt (by omega)]
      omega
  · simp only [scanTrip,addressSpace,cacheLineSize]
    omega
  · rw [← hk]
    exact hslow.symm
  · change s.islow < (s.islow+64/2)%2^64
    omega

/-- The inner loop reads inside the working set, and every half line below its bound. -/
lemma scan_reads (sum : UInt8) {fuel : ℕ} (hfuel : workingSet < fuel) :
    ∃ s, scan m start workingSet size fuel sum = some s ∧
      (∀ a ∈ s.reads, start ≤ a ∧ a < start+workingSet) ∧
      ∀ j, 32*j < size → start+32*j ∈ s.reads := by
  have hstart : Scanned start workingSet size ⟨0,0,sum,[]⟩ :=
    ⟨fun a ha => absurd ha List.not_mem_nil,Nat.add_pos_right _ (by decide),0,rfl,
      fun j hj => absurd hj (Nat.not_lt_zero j)⟩
  have hleft : size-0 < fuel := by omega
  obtain ⟨s,hs,⟨hinside,-,k,hk,hreads⟩,hstop⟩ :=
    whileLoop_rule (Scanned start workingSet size) (fun s => size-s.islow)
      (fun s hs hcond => by
        have hcond' : s.islow < size := of_decide_eq_true hcond
        obtain ⟨hnext,hgrow⟩ := scanTrip_scanned (m := m) hws hspace hsize hs hcond'
        exact ⟨hnext,by omega⟩) hstart hleft
  have hend : ¬ s.islow < size := of_decide_eq_false hstop
  exact ⟨s,hs,hinside,fun j hj => hreads j (by omega)⟩

end Pass

section Doubling
variable {m : Memory} {start workingSet : ℕ}

/-- Every pass reads inside the working set, and the last one reads every half line of it. -/
structure Covers (start workingSet : ℕ) (passes : List (List ℕ)) : Prop where
  inside : ∀ reads ∈ passes, ∀ a ∈ reads, start ≤ a ∧ a < start+workingSet
  last : ∃ first last, passes = first ++ [last] ∧ ∀ j, 32*j < workingSet → start+32*j ∈ last

/-- Before a pass; its bound is not clamped yet. -/
structure Doubling (start workingSet : ℕ) (s : Passes) : Prop where
  pos : 0 < s.size
  inside : ∀ reads ∈ s.passes, ∀ a ∈ reads, start ≤ a ∧ a < start+workingSet

variable (hws : workingSet ≤ 2^63) (hspace : start+workingSet ≤ addressSpace)
include hws hspace

/-- A pass below the working set doubles the bound; the one that reaches it is the last. -/
lemma pass_cases {fuel : ℕ} (hfuel : workingSet < fuel) (s : Passes)
    (hs : Doubling start workingSet s) :
    (∃ t, pass m start workingSet fuel s = some (.inl t) ∧ Doubling start workingSet t ∧
      workingSet-t.size < workingSet-s.size) ∨
    ∃ r, pass m start workingSet fuel s = some (.inr r) ∧
      Covers start workingSet r.passes := by
  obtain ⟨hpos,hinside⟩ := hs
  have hclamp : (if s.size > workingSet then workingSet else s.size) ≤ workingSet := by
    split <;> omega
  obtain ⟨r,hr,hreads,hcover⟩ := scan_reads (m := m) hws hspace hclamp s.sum hfuel
  have hpasses : ∀ reads ∈ s.passes ++ [r.reads], ∀ a ∈ reads,
      start ≤ a ∧ a < start+workingSet := by
    refine List.forall_mem_append.mpr ⟨hinside,fun reads hmem => ?_⟩
    rw [List.mem_singleton.mp hmem]
    exact hreads
  by_cases hlast : (if s.size > workingSet then workingSet else s.size) = workingSet
  · rw [hlast] at hcover
    exact Or.inr ⟨_,by rw [pass,hr,Option.map_some,if_pos hlast],hpasses,_,_,rfl,hcover⟩
  · have hlt : s.size < workingSet := by
      split at hlast <;> omega
    have hbound : (if s.size > workingSet then workingSet else s.size) = s.size :=
      if_neg (by omega)
    have hdouble : s.size*2%addressSpace = s.size*2 :=
      Nat.mod_eq_of_lt (by rw [addressSpace]; omega)
    refine Or.inl ⟨⟨s.size*2,r.sum,s.passes ++ [r.reads]⟩,?_,⟨?_,hpasses⟩,?_⟩
    · rw [pass,hr,Option.map_some,if_neg hlast,hbound,hdouble]
    · exact Nat.mul_pos hpos (by decide)
    · change workingSet-s.size*2 < workingSet-s.size
      omega

lemma passes_cover {fuel : ℕ} (hfuel : workingSet < fuel) :
    ∃ r, loop (pass m start workingSet fuel) fuel ⟨1,0,[]⟩ = some r ∧
      Covers start workingSet r.passes :=
  loop_rule (Doubling start workingSet) (fun s => workingSet-s.size)
    (fun r : Passes => Covers start workingSet r.passes) (pass_cases hws hspace hfuel)
    ⟨Nat.one_pos,fun _ hmem => absurd hmem List.not_mem_nil⟩
    (lt_of_le_of_lt (Nat.sub_le _ _) hfuel)

end Doubling

section Buffer
variable {alloc : ℕ → Except Outcome ℕ} {workingSet : ℕ}

/-- Up to the largest size that a working set of 2^63 bytes asks for. -/
def AllocSpec (alloc : ℕ → Except Outcome ℕ) : Prop :=
  ∀ size p, size ≤ 2^63+2*extraSize → alloc size = .ok p → p+size ≤ addressSpace

lemma allocHuge_spec (hugepages : Bool) {c : FlushCall} (hspec : c.memalign.Spec) :
    AllocSpec (allocHuge hugepages c) := by
  intro size p hsize hp
  simp only [extraSize,addressSpace] at *
  have htotal : (BitVec.ofNat 64 size+twoMB).toNat = size+2^21 := by
    rw [BitVec.toNat_add,BitVec.toNat_ofNat,twoMB_toNat]
    omega
  cases hm : c.memalign (BitVec.ofNat 64 size+twoMB) twoMB with
  | none => simp [allocHuge,newHugePtr,newAlignedPointer,hm,Except.map] at hp
  | some ptr =>
    obtain ⟨-,hfit⟩ := hspec _ _ _ hm
    simp only [allocHuge,newHugePtr,newAlignedPointer,hm,Except.map,Except.ok.injEq] at hp
    rw [htotal] at hfit
    cases hugepages with
    | true =>
      -- the skipped part of the block is the room that was added to it
      have hskip : (ptr+twoMB).toNat ≤ ptr.toNat+2^21 := by
        rw [BitVec.toNat_add,twoMB_toNat]
        exact Nat.mod_le _ _
      rw [if_pos rfl] at hp
      omega
    | false =>
      simp only [Bool.false_eq_true,↓reduceIte] at hp
      omega

lemma allocChars_spec {c : FlushCall} (hspec : c.newArray.Spec) : AllocSpec (allocChars c) := by
  intro size p _ hp
  cases hm : c.newArray size with
  | none => simp [allocChars,hm] at hp
  | some q =>
    simp only [allocChars,hm,Except.ok.injEq] at hp
    rw [← hp]
    exact hspec size q hm

/-- A buffer in use lies 4096 bytes into a block that is 8192 bytes longer. -/
structure Static.Within (s : Static) (block : Block) : Prop where
  allocated : block ∈ s.blocks
  start : s.buffer.start = block.start+extraSize
  size : block.size = s.buffer.size+2*extraSize
  fits : block.start+block.size ≤ addressSpace

def Static.Inv (s : Static) : Prop := s.buffer = ⟨0,0⟩ ∨ ∃ block, s.Within block

/-- The buffer stays as it is when it is large enough, and is allocated for this working set
otherwise. -/
lemma ensureBuffer_cases {s s' : Static} {m m' : Memory}
    (h : ensureBuffer alloc workingSet s m = .ok (s',m')) :
    (workingSet ≤ s.buffer.size ∧ s' = s) ∨
    (s.buffer.size < workingSet ∧
      ∃ p, alloc ((workingSet+2*extraSize)%addressSpace) = .ok p ∧
        s' = ⟨⟨workingSet,(p+extraSize)%addressSpace⟩,
          s.blocks ++ [⟨p,(workingSet+2*extraSize)%addressSpace⟩]⟩) := by
  by_cases hsmall : s.buffer.size < workingSet
  · rw [ensureBuffer,if_pos hsmall] at h
    cases hp : alloc ((workingSet+2*extraSize)%addressSpace) with
    | error e => simp [hp] at h
    | ok p =>
      simp only [hp,Except.ok.injEq,Prod.mk.injEq] at h
      exact Or.inr ⟨hsmall,p,rfl,h.1.symm⟩
  · rw [ensureBuffer,if_neg hsmall] at h
    cases h
    exact Or.inl ⟨not_lt.mp hsmall,rfl⟩

variable (halloc : AllocSpec alloc) (hws : workingSet ≤ 2^63)
include halloc hws

lemma ensureBuffer_inv {s s' : Static} {m m' : Memory} (hinv : s.Inv)
    (h : ensureBuffer alloc workingSet s m = .ok (s',m')) :
    s'.Inv ∧ workingSet ≤ s'.buffer.size := by
  rcases ensureBuffer_cases h with ⟨hle,rfl⟩ | ⟨-,p,hp,rfl⟩
  · exact ⟨hinv,hle⟩
  · have htotal : (workingSet+2*extraSize)%addressSpace = workingSet+2*extraSize :=
      Nat.mod_eq_of_lt (by rw [extraSize,addressSpace]; omega)
    rw [htotal] at hp ⊢
    have hfits := halloc _ p (Nat.add_le_add_right hws _) hp
    have hstart : (p+extraSize)%addressSpace = p+extraSize :=
      Nat.mod_eq_of_lt (by rw [extraSize] at *; omega)
    exact ⟨Or.inr ⟨_,List.mem_append_right _ (List.mem_singleton.mpr rfl),hstart,rfl,hfits⟩,
      le_rfl⟩

end Buffer

/-- The passes read in the working set that starts 4096 bytes into a block with room for it and
for as much again behind it, and the last one reads in every 64 bytes of it. -/
structure Sweeps (block : Block) (workingSet : ℕ) (passes : List (List ℕ)) : Prop where
  room : workingSet+2*extraSize ≤ block.size
  inside : ∀ reads ∈ passes, ∀ a ∈ reads,
    block.start+extraSize ≤ a ∧ a < block.start+extraSize+workingSet
  last : ∃ first last, passes = first ++ [last] ∧ ∀ b, 64*b < workingSet →
    ∃ a ∈ last, block.start+extraSize+64*b ≤ a ∧ a < block.start+extraSize+64*b+64

/-- The loops end; unless the allocation throws, the reads sweep one of the blocks that have been
allocated so far, and an empty working set is not read at all. -/
def Execution.Swept (e : Execution) : Prop :=
  match e.result with
  | .error .outOfFuel => False
  | .error (.threw _) => True
  | .ok passes => (e.workingSet = 0 ∧ ∀ reads ∈ passes, reads = []) ∨
    ∃ block ∈ e.static.blocks, Sweeps block e.workingSet passes

lemma Covers.sweeps {s : Static} {block : Block} {workingSet : ℕ} {passes : List (List ℕ)}
    (hwithin : s.Within block) (hle : workingSet ≤ s.buffer.size)
    (h : Covers s.buffer.start workingSet passes) : Sweeps block workingSet passes := by
  obtain ⟨hinside,first,last,hpasses,hlast⟩ := h
  rw [hwithin.start] at hinside hlast
  refine ⟨?_,hinside,first,last,hpasses,fun b hb => ?_⟩
  · rw [hwithin.size]
    exact Nat.add_le_add_right hle _
  · exact ⟨_,hlast (2*b) (by omega),by omega,by omega⟩

lemma flushHelper_swept {alloc : ℕ → Except Outcome ℕ} {workingSet fuel : ℕ} {s : Static}
    {m : Memory} (halloc : AllocSpec alloc) (hws : workingSet ≤ 2^63) (hfuel : workingSet < fuel)
    (hinv : s.Inv) :
    (flushHelper alloc workingSet fuel s m).1.Inv ∧
      Execution.Swept ⟨workingSet,(flushHelper alloc workingSet fuel s m).1,
        (flushHelper alloc workingSet fuel s m).2.2⟩ := by
  cases hbuf : ensureBuffer alloc workingSet s m with
  | error e =>
    rw [flushHelper,hbuf]
    exact ⟨hinv,trivial⟩
  | ok r =>
    obtain ⟨s',m'⟩ := r
    obtain ⟨hinv',hle⟩ := ensureBuffer_inv halloc hws hinv hbuf
    have hspace : s'.buffer.start+workingSet ≤ addressSpace := by
      rcases hinv' with hempty | ⟨block,-,hstart,hsize,hfits⟩
      · rw [hempty] at hle ⊢
        rw [Nat.le_zero.mp hle]
        exact Nat.zero_le _
      · omega
    obtain ⟨r,hr,hcovers⟩ := passes_cover (m := m') hws hspace hfuel
    have hrun : flushHelper alloc workingSet fuel s m = (s',m',.ok r.passes) := by
      rw [flushHelper,hbuf]
      simp only [hr]
    rw [hrun]
    refine ⟨hinv',?_⟩
    rcases hinv' with hempty | ⟨block,hwithin⟩
    · rw [hempty] at hle
      have hzero : workingSet = 0 := Nat.le_zero.mp hle
      refine Or.inl ⟨hzero,fun reads hmem => List.eq_nil_iff_forall_not_mem.mpr fun a ha => ?_⟩
      have := hcovers.inside reads hmem a ha
      omega
    · exact Or.inr ⟨block,hwithin.allocated,hcovers.sweeps hwithin hle⟩

/-- What a call relies on: allocated blocks lie in the address space, and the fuel is enough for
the loops over its working set. -/
structure FlushCall.Admissible (fuel : ℕ) (c : FlushCall) : Prop where
  workingSet : c.workingSet ≤ 2^63
  memalign : c.memalign.Spec
  newArray : c.newArray.Spec
  fuel : c.workingSet < fuel

lemma flushCaches_swept (hugepages : Bool) {fuel : ℕ} {s : State} {c : FlushCall}
    (hc : c.Admissible fuel) (hhuge : s.huge.Inv) (hchars : s.chars.Inv) :
    ((flushCaches hugepages fuel s c).1.huge.Inv ∧ (flushCaches hugepages fuel s c).1.chars.Inv) ∧
      ∀ e ∈ (flushCaches hugepages fuel s c).2, e.Swept := by
  obtain ⟨hinv,hswept⟩ := flushHelper_swept (m := s.memory)
    (allocHuge_spec hugepages hc.memalign) hc.workingSet hc.fuel hhuge
  rcases hfirst : flushHelper (allocHuge hugepages c) c.workingSet fuel s.huge s.memory with
    ⟨huge,m,result⟩
  rw [hfirst] at hinv hswept
  cases result with
  | error e =>
    rw [flushCaches,hfirst]
    refine ⟨⟨hinv,hchars⟩,fun e he => ?_⟩
    rw [List.mem_singleton.mp he]
    exact hswept
  | ok passes =>
    obtain ⟨hinv',hswept'⟩ := flushHelper_swept (m := m) (allocChars_spec hc.newArray)
      hc.workingSet hc.fuel hchars
    rw [flushCaches,hfirst]
    refine ⟨⟨hinv,hinv'⟩,fun e he => ?_⟩
    rcases List.mem_cons.mp he with rfl | he
    · exact hswept
    · rw [List.mem_singleton.mp he]
      exact hswept'

lemma run_swept (hugepages : Bool) {fuel : ℕ} {calls : List FlushCall}
    (hcalls : ∀ c ∈ calls, c.Admissible fuel) {s : State} (hhuge : s.huge.Inv)
    (hchars : s.chars.Inv) : ∀ e ∈ run hugepages fuel s calls, e.Swept := by
  induction calls generalizing s with
  | nil => exact fun e he => absurd he List.not_mem_nil
  | cons c calls ih =>
    obtain ⟨hc,hcalls⟩ := List.forall_mem_cons.mp hcalls
    obtain ⟨⟨hhuge',hchars'⟩,hswept⟩ := flushCaches_swept hugepages hc hhuge hchars
    intro e he
    rcases List.mem_append.mp he with he | he
    · exact hswept e he
    · exact ih hcalls hhuge' hchars' e he

/-- A call with allocators that always give out the same addresses, up to 1 GiB. -/
def sameAddresses (workingSet : ℕ) : FlushCall where
  workingSet := workingSet
  memalign size alignment :=
    if alignment = twoMB ∧ size.toNat ≤ 2^30 then some (BitVec.ofNat 64 (2^22)) else none
  newArray size := if size ≤ 2^30 then some 65536 else none

lemma sameAddresses_spec (workingSet : ℕ) :
    (sameAddresses workingSet).memalign.Spec ∧ (sameAddresses workingSet).newArray.Spec := by
  constructor
  · intro size alignment p hp
    obtain ⟨⟨rfl,hsize⟩,hq⟩ := Option.ite_none_right_eq_some.mp hp
    have hword : p.toNat = 2^22 := by
      rw [← Option.some.inj hq]
      rfl
    rw [hword,twoMB_toNat]
    omega
  · intro size p hp
    obtain ⟨hsize,hq⟩ := Option.ite_none_right_eq_some.mp hp
    rw [← Option.some.inj hq,addressSpace]
    omega

end UarchBench.FlushCaches
