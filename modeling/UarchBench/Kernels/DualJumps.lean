import UarchBench.Kernels.Calls

/-! The dual chains of jumps: one chain through the first jumps of the blocks, one through the second
jumps, and a bit that decides behind one of them which chain is next. -/
namespace UarchBench.DualJumps
open Base Machine Calls

def reps : ℕ := 10

inductive Chain
  | first | second
  deriving DecidableEq, Repr

inductive Label
  | enter
  | start
  /-- The jumps of a chain; the last one decides about the next chain. -/
  | jump (c : Chain) (i : ℕ)
  | again
  | leave
  deriving DecidableEq, Repr

/-- The fourth argument of `define_jmp_forward_dual` and the two chains that it stands for. -/
structure Kernel where
  flag : Bool
  deriving DecidableEq, Repr

namespace Kernel
variable (K : Kernel)

def target1 : Chain := if K.flag then .first else .second
def target2 : Chain := if K.flag then .second else .first

/-- The fill between the jumps is never reached. -/
def code : Label → Calls.Instr Label
  | .enter => .straight (.op (.op .xor .w32 .rax (.reg .rax)))
  | .start => .jmp (.jump .first 0)
  | .jump c i =>
    if i+1 < reps then .jmp (.jump c (i+1))
    else if c = K.target1 then .jmp (.jump K.target2 0)
    else .opJnz .xor .w32 .rax (.imm 1) (.jump K.target2 0)
  | .again => .decJnz .rdi (.jump K.target1 0)
  | .leave => .ret

def next : Label → Label
  | .enter => .start
  | .start => .jump .first 0
  | .jump c i => if i+1 < reps then .jump c (i+1) else .again
  | .again => .leave
  | .leave => .enter

def has : Label → Prop
  | .jump _ i => i < reps
  | _ => True

def program : Program Label := ⟨K.code,next,has⟩

end Kernel

def chain (c : Chain) : List Label := (List.range reps).map (.jump c)

namespace Kernel
variable (K : Kernel)

/-- The chain that a trip starts with. -/
def startChain (k : ℕ) : Chain := if k = 0 then .first else K.target1

def tripLabels (k : ℕ) : List Label :=
  (if K.startChain k = K.target1 then chain K.target1 else []) ++ chain K.target2 ++
    chain K.target2

def labels (trips : ℕ) : List Label :=
  [.enter,.start] ++ (List.range trips).flatMap (fun k => K.tripLabels k ++ [.again]) ++ [.leave]

lemma target1_ne : K.target1 ≠ K.target2 := by
  rw [target1,target2]
  cases K.flag <;> decide

lemma startChain_cases (k : ℕ) : K.startChain k = K.target1 ∨ K.startChain k = K.target2 := by
  rw [startChain,target1,target2]
  cases K.flag <;> split_ifs <;> simp

end Kernel

section Run
variable {K : Kernel} {lay : Layout K.program} {env : Env}

/-- The jumps of a chain but the last one. -/
lemma jumps_goes (c : Chain) (u : Cpu) :
    Goes lay env ⟨u,lay.place (.jump c 0)⟩ ((List.range (reps-1)).map (.jump c))
      ⟨u,lay.place (.jump c (reps-1))⟩ := by
  refine goes_steps (fun k => ⟨u,lay.place (.jump c k)⟩) (Label.jump c) (reps-1) (fun _ _ => rfl)
    (fun k hk => show k < reps by omega) (fun k hk => ?_)
  have hcode : K.program.code (.jump c k) = .jmp (.jump c (k+1)) :=
    if_pos (Nat.add_lt_of_lt_sub hk)
  rw [Calls.exec,hcode]

lemma chain_eq (c : Chain) :
    chain c = (List.range (reps-1)).map (.jump c) ++ [.jump c (reps-1)] := rfl

/-- The chain without a choice. -/
lemma chain_target1 (u : Cpu) :
    Goes lay env ⟨u,lay.place (.jump K.target1 0)⟩ (chain K.target1)
      ⟨u,lay.place (.jump K.target2 0)⟩ := by
  have hcode : K.program.code (.jump K.target1 (reps-1)) = .jmp (.jump K.target2 0) :=
    if_pos rfl
  have hlast : Goes lay env ⟨u,lay.place (.jump K.target1 (reps-1))⟩ [.jump K.target1 (reps-1)]
      ⟨u,lay.place (.jump K.target2 0)⟩ :=
    goes_exec (show reps-1 < reps by decide) (by rw [Calls.exec,hcode])
  rw [chain_eq]
  exact (jumps_goes K.target1 u).append hlast

/-- The chain that is passed again if the bit was not set. -/
lemma chain_target2 (u : Cpu) :
    Goes lay env ⟨u,lay.place (.jump K.target2 0)⟩ (chain K.target2)
      ⟨u.set .rax (Width.w32.trunc (u.regs .rax ^^^ 1#64)),
        if Width.w32.trunc (u.regs .rax ^^^ 1#64) ≠ 0 then lay.place (.jump K.target2 0)
        else lay.place .again⟩ := by
  have hcode : K.program.code (.jump K.target2 (reps-1)) =
      .opJnz .xor .w32 .rax (.imm 1) (.jump K.target2 0) := if_neg K.target1_ne.symm
  have hlast : Goes lay env ⟨u,lay.place (.jump K.target2 (reps-1))⟩ [.jump K.target2 (reps-1)]
      _ := goes_exec (show reps-1 < reps by decide) (by rw [Calls.exec,hcode])
  rw [chain_eq]
  exact (jumps_goes K.target2 u).append hlast

/-- Two passes through the second target, from a bit that is not set. -/
lemma chain_twice {u : Cpu} (hrax : u.regs .rax = 0) :
    Goes lay env ⟨u,lay.place (.jump K.target2 0)⟩ (chain K.target2 ++ chain K.target2)
      ⟨u,lay.place .again⟩ := by
  have hfirst : Goes lay env ⟨u,_⟩ _ _ := chain_target2 u
  have hset : Width.w32.trunc (u.regs .rax ^^^ 1#64) = 1 := by rw [hrax]; rfl
  rw [hset,if_pos (by decide)] at hfirst
  have hsecond : Goes lay env ⟨u.set .rax 1,_⟩ _ _ := chain_target2 (u.set .rax 1)
  have hreset : Width.w32.trunc ((u.set .rax 1).regs .rax ^^^ 1#64) = 0 := by
    rw [Cpu.set_same]
    rfl
  have hsame : (u.set .rax 1).set .rax 0 = u := by
    rw [Cpu.set,Cpu.set,Function.update_idem,← hrax,Function.update_eq_self]
  rw [hreset,if_neg (fun h => h rfl),hsame] at hsecond
  exact hfirst.append hsecond

/-- A trip. -/
theorem trip_goes (k : ℕ) {u : Cpu} (hrax : u.regs .rax = 0) :
    Goes lay env ⟨u,lay.place (.jump (K.startChain k) 0)⟩ (K.tripLabels k)
      ⟨u,lay.place .again⟩ := by
  rw [Kernel.tripLabels,List.append_assoc]
  rcases K.startChain_cases k with h | h
  · rw [h,if_pos rfl]
    exact (chain_target1 u).append (chain_twice hrax)
  · rw [h,if_neg K.target1_ne.symm]
    exact chain_twice hrax

/-- A whole run. -/
theorem kernel_goes (c : Cpu) :
    ∃ t, Goes lay env ⟨c,lay.place .enter⟩ (K.labels (decTrips (c.regs .rdi))) t ∧
      Returned 0 ⟨c,lay.place .enter⟩ t := by
  let e := c.set .rax 0
  have henter : Goes lay env ⟨c,lay.place .enter⟩ [.enter] ⟨e,lay.place .start⟩ := by
    have hone : Goes lay env ⟨c,lay.place .enter⟩ [.enter]
        ⟨c.set .rax (Width.w32.trunc (c.regs .rax ^^^ c.regs .rax)),lay.place .start⟩ :=
      goes_one rfl trivial
    rwa [BitVec.xor_self] at hone
  have hstart : Goes lay env ⟨e,lay.place .start⟩ [.start] ⟨e,lay.place (.jump .first 0)⟩ :=
    goes_one rfl trivial
  have hcode : K.program.code .again = .decJnz .rdi (.jump K.target1 0) := rfl
  have hhas : K.program.has .again := trivial
  have hrdi : e.regs .rdi = c.regs .rdi := Cpu.set_of_ne _ _ _ _ (by decide)
  obtain ⟨d,hloop,-,hkept⟩ : ∃ d, Goes lay env ⟨e,lay.place (.jump (K.startChain 0) 0)⟩
      ((List.range (decTrips (e.regs .rdi))).flatMap (fun k => K.tripLabels k ++ [.again]))
      ⟨d,lay.place .leave⟩ ∧ (d.regs .rax = 0 ∧ Kept [.rax,.rdi] 0 c d) := by
    refine Goes.loop_from (I := fun _ d => d.regs .rax = 0 ∧ Kept [.rax,.rdi] 0 c d)
      (fun k => Label.jump (K.startChain k) 0) (fun _ => rfl) hcode hhas
      (fun k _ u hu _ => ?_) ⟨Cpu.set_same ..,Kept.refl.set (by decide) _⟩
    refine ⟨u,trip_goes k hu.1,rfl,?_,hu.2.set (by decide) _⟩
    rw [Cpu.set_of_ne _ _ _ _ (by decide),hu.1]
  obtain ⟨t,hleave,hback,-⟩ := hkept.leave_goes (by decide) (by decide)
    (show K.program.code .leave = .ret from rfl) trivial (lay.place .enter)
  rw [hrdi] at hloop
  exact ⟨t,((henter.append hstart).append hloop).append hleave,hback⟩

end Run

lemma count_chain (c c' : Chain) {i : ℕ} (hi : i < reps) :
    (chain c').count (.jump c i) = if c = c' then 1 else 0 := by
  have hall : ∀ c c' : Chain, ∀ i < reps,
      (chain c').count (.jump c i) = if c = c' then 1 else 0 := by
    intro c c'
    cases c <;> cases c' <;> decide
  exact hall c c' i hi

namespace Kernel
variable (K : Kernel)

lemma count_tripLabels (c : Chain) {i : ℕ} (hi : i < reps) (k : ℕ) :
    (K.tripLabels k ++ [Label.again]).count (.jump c i) =
      if c = K.target2 then 2 else if K.startChain k = K.target1 then 1 else 0 := by
  have hagain : [Label.again].count (.jump c i) = 0 := rfl
  have hcases : c = K.target1 ∨ c = K.target2 := by
    rw [target1,target2]
    cases K.flag <;> cases c <;> simp
  rw [tripLabels,List.count_append,List.count_append,List.count_append,hagain]
  rcases hcases with rfl | rfl
  · rw [count_chain _ _ hi,if_neg K.target1_ne,if_neg K.target1_ne]
    split_ifs with h
    · rw [count_chain _ _ hi,if_pos rfl]
    · rfl
  · rw [count_chain _ _ hi,if_pos rfl,if_pos rfl]
    split_ifs with h
    · rw [count_chain _ _ hi,if_neg K.target1_ne.symm]
    · rfl

/-- The chain that is passed twice in a trip, and the one before it. -/
theorem count_labels (c : Chain) {i : ℕ} (hi : i < reps) {trips : ℕ} (hpos : 0 < trips) :
    (K.labels trips).count (.jump c i) =
      if c = K.target2 then 2*trips else if K.flag then trips else trips-1 := by
  obtain ⟨n,rfl⟩ : ∃ n, trips = n+1 := ⟨trips-1,by omega⟩
  have hrest : ∀ k : ℕ, K.startChain k.succ = K.target1 := fun _ => rfl
  have hfirst : K.startChain 0 = K.target1 ↔ K.flag = true := by
    rw [startChain,target1]
    cases K.flag <;> decide
  have henter : [Label.enter,.start].count (.jump c i) = 0 := rfl
  have hleave : [Label.leave].count (.jump c i) = 0 := rfl
  rw [labels,List.count_append,List.count_append,henter,hleave,List.count_flatMap,
    List.range_succ_eq_map,List.map_cons,List.sum_cons,List.map_map]
  simp only [Function.comp_def,K.count_tripLabels c hi,hrest,hfirst,List.map_const',
    List.length_range,List.sum_replicate_nat,if_true]
  split_ifs <;> omega

end Kernel

/-- A kernel returns after its iterations with memory as it was. If the flag is set, each iteration
passes the first chain once and then the second one twice; otherwise it passes the first chain twice
and, unless it is the last one, then the second one once. -/
theorem dualJumps_ratio (K : Kernel) (lay : Layout K.program) (env : Env) (c : Cpu)
    (hret : lay.find (c.read (c.regs .rsp) 8) = none) :
    let s : State := ⟨c,lay.place .enter⟩
    let trips := decTrips (c.regs .rdi)
    (∀ fuel, (K.labels trips).length < fuel →
      run lay env fuel s = some ((K.labels trips).map some)) ∧
    (∃ t, Goes lay env s (K.labels trips) t ∧ Returned 0 s t) ∧
    ∀ i < reps,
      (K.labels trips).count (.jump .first i) = (if K.flag then trips else 2*trips) ∧
      (K.labels trips).count (.jump .second i) = if K.flag then 2*trips else trips-1 := by
  intro s trips
  obtain ⟨t,hgoes,hback⟩ : ∃ t, Goes lay env s (K.labels trips) t ∧ Returned 0 s t :=
    kernel_goes c
  refine ⟨fun fuel hfuel => hback.run_eq_some hgoes hret hfuel,⟨t,hgoes,hback⟩,fun i hi => ?_⟩
  have hpos : 0 < trips := Nat.succ_pos _
  rw [K.count_labels .first hi hpos,K.count_labels .second hi hpos,Kernel.target2]
  cases K.flag <;> simp

/-- A layout of a kernel. -/
def dualLayout (K : Kernel) : Layout K.program :=
  Layout.ofList _ 1 ([.enter,.start] ++ chain .first ++ chain .second ++ [.again,.leave])
    (fun l hl => by
      cases l with
      | jump c i =>
        have hi : i < reps := hl
        cases c <;> simp [chain,hi]
      | _ => simp) Nat.one_pos (by decide)

theorem dualJumps_ratio_set :
    (∀ fuel, (Kernel.labels ⟨true⟩ 100).length < fuel →
      run (dualLayout ⟨true⟩) zeroEnv fuel ⟨caller,(dualLayout ⟨true⟩).place .enter⟩ =
        some ((Kernel.labels ⟨true⟩ 100).map some)) ∧
    (∃ t, Goes (dualLayout ⟨true⟩) zeroEnv ⟨caller,(dualLayout ⟨true⟩).place .enter⟩
        (Kernel.labels ⟨true⟩ 100) t ∧
      Returned 0 ⟨caller,(dualLayout ⟨true⟩).place .enter⟩ t) ∧
    ∀ i < reps, (Kernel.labels ⟨true⟩ 100).count (.jump .first i) = 100 ∧
      (Kernel.labels ⟨true⟩ 100).count (.jump .second i) = 2*100 :=
  dualJumps_ratio ⟨true⟩ (dualLayout ⟨true⟩) zeroEnv caller (by decide)

end UarchBench.DualJumps
