import UarchBench.Base.Registers
import UarchBench.Base.Visits
import Mathlib.Tactic.Ring

/-! The jump loop kernel: one counter with two signed comparisons sends each pass through one of two
interleaved chains of jumps. -/
namespace UarchBench.JmpLoop
open Base

def reps : ℕ := 10

inductive Label
  | first (i : ℕ)
  | second (i : ℕ)
  | bottom
  | done
  deriving DecidableEq, Repr

/-- The last label of the second chain is at `.bottom`. -/
def secondLabel (i : ℕ) : Label := if i < reps then .second i else .bottom

structure JmpLoopArgs where
  total : BitVec 32
  first : BitVec 32

structure State where
  label : Label
  eax : BitVec 32
  rdi : BitVec 64

/-- The code from one label to the next one. The last label of the first chain falls through to
`.bottom`, and the fill between the jumps is never reached. -/
def step (args : JmpLoopArgs) (s : State) : Option State :=
  match s.label with
  | .first i => some {s with label := if i < reps then .first (i+1) else .bottom}
  | .second i => some {s with label := secondLabel (i+1)}
  | .bottom =>
    let eax := s.eax+1
    if (subFlags eax args.first).jle then some {s with label := .first 1, eax := eax}
    else if (subFlags eax args.total).jle then some {s with label := secondLabel 1, eax := eax}
    else some ⟨if (subFlags s.rdi 1).jnz then .bottom else .done,0,s.rdi-1⟩
  | .done => none

/-- `define_jmp_loop_generic`: the labels that are visited until the return. -/
def jmpLoopGeneric (args : JmpLoopArgs) (iters : BitVec 64) (fuel : ℕ) : Option (List Label) :=
  visits (step args) State.label fuel ⟨.bottom,0,iters⟩

def firstChain : List Label := (List.range reps).map (fun i => .first (i+1))

def secondChain : List Label := (List.range (reps-1)).map (fun i => .second (i+1))

/-- The labels of one iteration of the outer loop: the passes through the first chain, those through
the second one, and the comparisons that find the counter above both bounds. -/
def outerIteration (first total : ℕ) : List Label :=
  (List.replicate first (.bottom::firstChain)).flatten ++
    (List.replicate (total-first) (.bottom::secondChain)).flatten ++ [.bottom]

section Chains
variable (args : JmpLoopArgs) (eax : BitVec 32) (rdi : BitVec 64)

lemma firstChain_path :
    Path (step args) State.label ⟨.first 1,eax,rdi⟩ firstChain ⟨.bottom,eax,rdi⟩ := by
  have hpath : Path (step args) State.label _ _ _ := Path.steps
    (fun k => ⟨if k < reps then .first (k+1) else .bottom,eax,rdi⟩) reps (fun k hk => by
      simp only [if_pos hk,step])
  have hlabels : (List.range reps).map
      (fun k => (if k < reps then Label.first (k+1) else .bottom)) = firstChain :=
    List.map_congr_left (fun k hk => if_pos (List.mem_range.mp hk))
  rwa [hlabels] at hpath

lemma secondChain_path :
    Path (step args) State.label ⟨secondLabel 1,eax,rdi⟩ secondChain ⟨.bottom,eax,rdi⟩ := by
  have hlabel : ∀ k < reps-1, secondLabel (k+1) = .second (k+1) := fun k hk =>
    if_pos (by omega)
  have hpath : Path (step args) State.label _ _ _ := Path.steps
    (fun k => ⟨secondLabel (k+1),eax,rdi⟩) (reps-1) (fun k hk => by
      simp only [hlabel k hk,step])
  have hlabels : (List.range (reps-1)).map (fun k => secondLabel (k+1)) = secondChain :=
    List.map_congr_left (fun k hk => hlabel k (List.mem_range.mp hk))
  rwa [hlabels] at hpath

end Chains

lemma inc_ofNat (k : ℕ) : BitVec.ofNat 32 k+1 = BitVec.ofNat 32 (k+1) :=
  (BitVec.ofNat_add k 1).symm

/-- Below `2^31` the signed comparison of the incremented counter is that of the numbers. -/
lemma jle_inc {k : ℕ} {bound : BitVec 32} (hk : k+1 < 2^31) (hbound : bound.toNat < 2^31) :
    (subFlags (BitVec.ofNat 32 k+1) bound).jle = decide (k+1 ≤ bound.toNat) := by
  have hinc : (BitVec.ofNat 32 k+1).toNat = k+1 := by
    rw [inc_ofNat,BitVec.toNat_ofNat]
    omega
  rw [jle_sub (by decide),decide_eq_decide,BitVec.toInt_eq_toNat_of_lt (by omega),
    BitVec.toInt_eq_toNat_of_lt (by omega),hinc]
  omega

/-- `dec rdi` counts the iterations that are left. -/
lemma dec_left {n j : ℕ} (hn : n < 2^64) (hj : j < n) :
    (subFlags (BitVec.ofNat 64 (n-j)) 1).jnz = decide (j+1 < n) ∧
      BitVec.ofNat 64 (n-j)-1 = BitVec.ofNat 64 (n-(j+1)) := by
  obtain ⟨left,rfl⟩ : ∃ left, n = j+1+left := ⟨n-(j+1),by omega⟩
  have hleft : j+1+left-j = left+1 := by omega
  have hdec : BitVec.ofNat 64 (left+1)-1 = BitVec.ofNat 64 left := by
    rw [BitVec.ofNat_add]
    exact BitVec.add_sub_cancel _ _
  rw [hleft,Nat.add_sub_cancel_left]
  refine ⟨?_,hdec⟩
  have hone : BitVec.ofNat 64 (left+1) = 1 ↔ left = 0 := by
    rw [← BitVec.toNat_inj,BitVec.toNat_ofNat]
    change (left+1)%2^64 = 1 ↔ left = 0
    omega
  rw [jnz_sub,decide_eq_decide,ne_eq,hone]
  omega

section Passes
variable {args : JmpLoopArgs} (hle : args.first.toNat ≤ args.total.toNat)
  (hlt : args.total.toNat < 2^31-1) (rdi : BitVec 64)
include hle hlt

lemma first_pass {k : ℕ} (hk : k < args.first.toNat) :
    Path (step args) State.label ⟨.bottom,BitVec.ofNat 32 k,rdi⟩ (.bottom::firstChain)
      ⟨.bottom,BitVec.ofNat 32 (k+1),rdi⟩ := by
  rw [← inc_ofNat]
  refine Path.cons ?_ (firstChain_path args _ rdi)
  have hcmp : (subFlags (BitVec.ofNat 32 k+1) args.first).jle = true := by
    rw [jle_inc (by omega) (by omega)]
    exact decide_eq_true (by omega)
  simp only [step,hcmp,if_true]

omit hle in
lemma second_pass {k : ℕ} (hk : args.first.toNat ≤ k) (hk' : k < args.total.toNat) :
    Path (step args) State.label ⟨.bottom,BitVec.ofNat 32 k,rdi⟩ (.bottom::secondChain)
      ⟨.bottom,BitVec.ofNat 32 (k+1),rdi⟩ := by
  rw [← inc_ofNat]
  refine Path.cons ?_ (secondChain_path args _ rdi)
  have hcmp : (subFlags (BitVec.ofNat 32 k+1) args.first).jle = false := by
    rw [jle_inc (by omega) (by omega)]
    exact decide_eq_false (by omega)
  have hcmp' : (subFlags (BitVec.ofNat 32 k+1) args.total).jle = true := by
    rw [jle_inc (by omega) (by omega)]
    exact decide_eq_true (by omega)
  simp only [step,hcmp,hcmp',Bool.false_eq_true,if_true,if_false]

/-- The counter has passed both bounds and is reset. -/
lemma reset_step : step args ⟨.bottom,args.total,rdi⟩ =
    some ⟨if (subFlags rdi 1).jnz then .bottom else .done,0,rdi-1⟩ := by
  have hcmp : ∀ bound : BitVec 32, bound.toNat ≤ args.total.toNat →
      (subFlags (args.total+1) bound).jle = false := by
    intro bound hbound
    have hinc := @jle_inc args.total.toNat bound (by omega) (by omega)
    rw [BitVec.ofNat_toNat,BitVec.setWidth_eq] at hinc
    rw [hinc]
    exact decide_eq_false (by omega)
  simp only [step,hcmp args.first hle,hcmp args.total le_rfl,Bool.false_eq_true,if_false]

/-- One iteration of the outer loop. -/
theorem outerIteration_path :
    Path (step args) State.label ⟨.bottom,0,rdi⟩
      (outerIteration args.first.toNat args.total.toNat)
      ⟨if (subFlags rdi 1).jnz then .bottom else .done,0,rdi-1⟩ := by
  have hfirst : Path (step args) State.label _ _ _ := Path.rounds
    (fun k => ⟨.bottom,BitVec.ofNat 32 k,rdi⟩) (.bottom::firstChain) args.first.toNat
    (fun k hk => first_pass hle hlt rdi hk)
  have hsecond : Path (step args) State.label _ _ _ := Path.rounds
    (fun k => ⟨.bottom,BitVec.ofNat 32 (args.first.toNat+k),rdi⟩) (.bottom::secondChain)
    (args.total.toNat-args.first.toNat)
    (fun k hk => second_pass hlt rdi (by omega) (by omega))
  rw [Nat.add_sub_cancel' hle] at hsecond
  have hreset : Path (step args) State.label ⟨.bottom,args.total,rdi⟩ _ _ :=
    Path.single (reset_step hle hlt rdi)
  rw [← BitVec.setWidth_eq args.total,← BitVec.ofNat_toNat] at hreset
  exact (hfirst.append hsecond).append hreset

/-- All iterations of the outer loop. -/
theorem jmpLoopGeneric_eq {iters : BitVec 64} (hiters : 1 ≤ iters.toNat) :
    ∃ steps, ∀ fuel, steps ≤ fuel → jmpLoopGeneric args iters fuel = some
      (List.replicate iters.toNat
        (outerIteration args.first.toNat args.total.toNat)).flatten := by
  have hpath : Path (step args) State.label _ _ _ := Path.rounds
    (fun j => ⟨if j < iters.toNat then .bottom else .done,0,BitVec.ofNat 64 (iters.toNat-j)⟩)
    (outerIteration args.first.toNat args.total.toNat) iters.toNat (fun j hj => by
      have houter := outerIteration_path hle hlt (BitVec.ofNat 64 (iters.toNat-j))
      obtain ⟨hjnz,hdec⟩ := dec_left iters.isLt hj
      simpa only [hjnz,hdec,decide_eq_true_eq,if_pos hj] using houter)
  have hpos : 0 < iters.toNat := hiters
  simp only [Nat.sub_zero,BitVec.ofNat_toNat,BitVec.setWidth_eq,hpos,if_true,lt_irrefl,
    if_false] at hpath
  exact ⟨_,fun fuel hfuel => hpath.visits_eq rfl hfuel⟩

end Passes

lemma count_outerIteration (l : Label) (first total : ℕ) :
    (outerIteration first total).count l = first*(.bottom::firstChain : List Label).count l+
      (total-first)*(.bottom::secondChain : List Label).count l+[Label.bottom].count l := by
  simp only [outerIteration,List.count_append,List.count_flatten,List.map_replicate,
    List.sum_replicate_nat]

/-- The kernel ends after its iterations, each of which passes `first` times through the first chain
and then `total-first` times through the second one. -/
theorem jmpLoopGeneric_splits (args : JmpLoopArgs) (iters : BitVec 64)
    (hle : args.first.toNat ≤ args.total.toNat) (hlt : args.total.toNat < 2^31-1)
    (hiters : 1 ≤ iters.toNat) :
    ∃ visited, (∃ steps, ∀ fuel, steps ≤ fuel → jmpLoopGeneric args iters fuel = some visited) ∧
      visited = (List.replicate iters.toNat
        ((List.replicate args.first.toNat (.bottom::firstChain)).flatten ++
          (List.replicate (args.total.toNat-args.first.toNat) (.bottom::secondChain)).flatten ++
          [.bottom])).flatten ∧
      (∀ l ∈ firstChain, visited.count l = iters.toNat*args.first.toNat) ∧
      ∀ l ∈ secondChain, visited.count l = iters.toNat*(args.total.toNat-args.first.toNat) := by
  have hcount : ∀ l, (List.replicate iters.toNat
      (outerIteration args.first.toNat args.total.toNat)).flatten.count l =
      iters.toNat*(outerIteration args.first.toNat args.total.toNat).count l := fun l => by
    rw [List.count_flatten,List.map_replicate,List.sum_replicate_nat]
  have hchains : (∀ l ∈ firstChain, (.bottom::firstChain : List Label).count l = 1 ∧
        (.bottom::secondChain : List Label).count l = 0 ∧ [Label.bottom].count l = 0) ∧
      ∀ l ∈ secondChain, (.bottom::firstChain : List Label).count l = 0 ∧
        (.bottom::secondChain : List Label).count l = 1 ∧ [Label.bottom].count l = 0 := by
    decide
  refine ⟨_,jmpLoopGeneric_eq hle hlt hiters,rfl,fun l hl => ?_,fun l hl => ?_⟩
  · obtain ⟨hfirst,hsecond,hbottom⟩ := hchains.1 l hl
    rw [hcount,count_outerIteration,hfirst,hsecond,hbottom]
    ring
  · obtain ⟨hfirst,hsecond,hbottom⟩ := hchains.2 l hl
    rw [hcount,count_outerIteration,hfirst,hsecond,hbottom]
    ring

/-- A registered instance. -/
theorem jmpLoopGeneric_splits_10_3 :
    ∃ visited, (∃ steps, ∀ fuel, steps ≤ fuel →
        jmpLoopGeneric ⟨10,3⟩ 1000 fuel = some visited) ∧
      visited = (List.replicate 1000
        ((List.replicate 3 (.bottom::firstChain)).flatten ++
          (List.replicate (10-3) (.bottom::secondChain)).flatten ++ [.bottom])).flatten ∧
      (∀ l ∈ firstChain, visited.count l = 1000*3) ∧
      ∀ l ∈ secondChain, visited.count l = 1000*(10-3) :=
  jmpLoopGeneric_splits ⟨10,3⟩ 1000 (by decide) (by decide) (by decide)

end UarchBench.JmpLoop
