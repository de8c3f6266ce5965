import UarchBench.Base.Countdown
import Mathlib.Algebra.Module.NatInt
import Mathlib.Tactic.Abel

/-! The calibration of the clock timer: two runs of a chain of dependent subtractions, one twice
as long as the other, and the difference of their times. Which chain is run depends on the build;
each executes a number of subtractions of its own beyond the requested one. -/
namespace UarchBench.Calibration
open Base

abbrev Word := BitVec 64

structure X86 where
  rdi : Word
  flags : Flags
  subs : ℕ

/-- One trip of `add_calibration_x86`: the register with the one is loaded again, and `jge` sees the
flags of the second subtraction. -/
def x86Trip (s : X86) : X86 :=
  let rax : Word := -(-1)
  ⟨s.rdi-rax-rax,subFlags (s.rdi-rax) rax,s.subs+2⟩

/-- `add_calibration_x86`: the number of subtractions it executes. -/
def addCalibrationX86 (iters : Word) (fuel : ℕ) : Option ℕ :=
  (doWhile (fun s => some (x86Trip s)) (fun s => s.flags.jge) fuel
    ⟨iters,⟨true,false,false⟩,0⟩).map (fun r => r.1.subs)

structure Portable where
  /-- The `int64_t` counter. -/
  iters : Word
  subs : ℕ

def Portable.decrement (s : Portable) : Portable := ⟨s.iters-1,s.subs+1⟩

/-- One trip of `portable_add_chain`; `modify` only hides the value from the compiler. -/
def portableTrip (s : Portable) : Portable := s.decrement.decrement.decrement.decrement

/-- `portable_add_chain`: the number of subtractions it executes. -/
def portableAddChain (iters : Word) (fuel : ℕ) : Option ℕ :=
  (doWhile (fun s => some (portableTrip s)) (fun s => s.iters != 0) fuel ⟨iters,0⟩).map
    (fun r => r.1.subs)

/-- `UARCH_BENCH_PORTABLE`. -/
inductive BuildMode
  | x86
  | portable
  deriving DecidableEq, Repr

/-- The macro `CAL_FN`. -/
def calFn : BuildMode → Word → ℕ → Option ℕ
  | .x86 => addCalibrationX86
  | .portable => portableAddChain

/-- What a call costs on the machine, in the time type of the clock: the same overhead for every
call and the same time for every subtraction. -/
structure Machine (τ : Type) where
  overhead : τ
  perOp : τ

section Calc
variable {τ : Type} [AddCommGroup τ]

def Machine.callTime (M : Machine τ) (subs : ℕ) : τ := M.overhead+subs • M.perOp

/-- One try of `CalcCpuFreq`, from the first reading: the entry of `results`. -/
def calcTry (M : Machine τ) (mode : BuildMode) (ITERS : Word) (fuel : ℕ) (t0 : τ) : Option τ := do
  let subs ← calFn mode ITERS fuel
  let t1 := t0+M.callTime subs
  let subs' ← calFn mode (ITERS*2) fuel
  let t2 := t1+M.callTime subs'
  return (t2-t1)-(t1-t0)

/-- The array `results` of `CalcCpuFreq` after all warmup rounds; `t0` has the first reading of each
try. -/
def calcResults (M : Machine τ) (mode : BuildMode) (ITERS : Word) (TRIES WARMUP fuel : ℕ)
    (t0 : ℕ → ℕ → τ) : Option (List τ) :=
  (List.range (WARMUP+1)).foldlM
    (fun _ w => (List.range TRIES).mapM (fun r => calcTry M mode ITERS fuel (t0 w r))) []

end Calc

lemma x86_iterate_subs (s : X86) (k : ℕ) : (x86Trip^[k] s).subs = s.subs+2*k := by
  induction k with
  | zero => rfl
  | succ k ih =>
    simp only [Function.iterate_succ_apply',x86Trip,ih]
    omega

lemma portable_iterate_subs (s : Portable) (k : ℕ) :
    (portableTrip^[k] s).subs = s.subs+4*k := by
  induction k with
  | zero => rfl
  | succ k ih =>
    simp only [Function.iterate_succ_apply',portableTrip,Portable.decrement,ih]
    omega

/-- The second subtraction of a trip does not overflow while the loop goes on. -/
lemma toInt_sub_two {y : Word} (h : 1 ≤ y.toInt) : (y-1-1).toInt = y.toInt-2 := by
  have hone : (1 : Word).toInt = 1 := rfl
  have hlt := BitVec.toInt_lt (x := y)
  rw [BitVec.sub_sub,BitVec.toInt_sub,show (1+1 : Word).toInt = 2 from rfl]
  exact Int.bmod_eq_of_le (by omega) (by omega)

/-- What is left for the loop before a trip: one more than the first difference of the trip. -/
def x86Left (s : X86) : ℕ := ((s.rdi-1).toInt+1).toNat

theorem x86_run (s : X86) (fuel : ℕ) (hfuel : x86Left s/2+1 ≤ fuel) :
    doWhile (fun s => some (x86Trip s)) (fun s => s.flags.jge) fuel s =
      some (x86Trip^[x86Left s/2+1] s,x86Left s/2+1) := by
  refine doWhile_countdown (fun _ => True) x86Left two_pos (fun _ _ => trivial) (fun s _ hs => ?_)
    (fun s _ => ?_) trivial fuel hfuel
  · have hy : 1 ≤ (s.rdi-1).toInt := by
      simp only [x86Left] at hs
      omega
    change ((s.rdi-1-1-1).toInt+1).toNat = ((s.rdi-1).toInt+1).toNat-2
    rw [toInt_sub_two hy]
    omega
  · change (subFlags (s.rdi-1) 1).jge = decide (2 ≤ ((s.rdi-1).toInt+1).toNat)
    rw [jge_sub (by omega),decide_eq_decide,show (1 : Word).toInt = 1 from rfl]
    omega

/-- The loop ends below zero, one trip after the count is used up. -/
theorem addCalibrationX86_subs {n : ℕ} (heven : 2 ∣ n) (hpos : 0 < n) (hn : n < 2^63) {fuel : ℕ}
    (hfuel : n/2+1 ≤ fuel) : addCalibrationX86 (BitVec.ofNat 64 n) fuel = some (n+2) := by
  have hstart : (BitVec.ofNat 64 n-1).toInt = (n : ℤ)-1 := by
    rw [BitVec.toInt_eq_toNat_cond,BitVec.toNat_sub,BitVec.toNat_ofNat,
      show (1 : Word).toNat = 1 from rfl]
    split_ifs <;> omega
  have hleft : x86Left ⟨BitVec.ofNat 64 n,⟨true,false,false⟩,0⟩ = n := by
    rw [x86Left,hstart]
    omega
  rw [addCalibrationX86,x86_run _ fuel (by rwa [hleft]),hleft,Option.map_some,x86_iterate_subs,
    Option.some.injEq]
  change 0+2*(n/2+1) = n+2
  omega

/-- What is left for the portable loop before a trip, beyond the four decrements of that trip. -/
def portableLeft (s : Portable) : ℕ := (s.iters-4).toNat

/-- Between two trips the counter is a multiple of four, so it does not jump over zero. -/
theorem portable_run (s : Portable) (hs : 4 ∣ s.iters.toNat) (fuel : ℕ)
    (hfuel : portableLeft s/4+1 ≤ fuel) :
    doWhile (fun s => some (portableTrip s)) (fun s => s.iters != 0) fuel s =
      some (portableTrip^[portableLeft s/4+1] s,portableLeft s/4+1) := by
  have hiters : ∀ s : Portable, (portableTrip s).iters = s.iters-4 := fun s => by
    simp only [portableTrip,Portable.decrement,BitVec.sub_sub]
    rfl
  have hfour : ∀ x : Word, (x-4).toNat = (2^64-4+x.toNat)%2^64 := fun x => BitVec.toNat_sub x 4
  refine doWhile_countdown (fun s => 4 ∣ s.iters.toNat) portableLeft four_pos (fun s hs => ?_)
    (fun s _ hle => ?_) (fun s hs => ?_) hs fuel hfuel
  · rw [hiters,hfour]
    omega
  · simp only [portableLeft,hiters,hfour] at hle ⊢
    omega
  · rw [hiters,Bool.eq_iff_iff,bne_iff_ne,decide_eq_true_eq,ne_eq,← BitVec.toNat_inj,portableLeft,
      hfour]
    change ¬ (2^64-4+s.iters.toNat)%2^64 = 0 ↔ _
    omega

/-- The portable loop ends at zero exactly. -/
theorem portableAddChain_subs {n : ℕ} (hfour : 4 ∣ n) (hpos : 0 < n) (hn : n < 2^64) {fuel : ℕ}
    (hfuel : n/4 ≤ fuel) : portableAddChain (BitVec.ofNat 64 n) fuel = some n := by
  have hleft : portableLeft ⟨BitVec.ofNat 64 n,0⟩ = n-4 := by
    rw [portableLeft,BitVec.toNat_sub,BitVec.toNat_ofNat,show (4 : Word).toNat = 4 from rfl]
    omega
  rw [portableAddChain,portable_run _ ?_ fuel ?_,hleft,Option.map_some,portable_iterate_subs,
    Option.some.injEq]
  · change 0+4*((n-4)/4+1) = n
    omega
  · rw [BitVec.toNat_ofNat,Nat.mod_eq_of_lt hn]
    exact hfour
  · rw [hleft]
    omega

/-- What a chain executes beyond the requested number. -/
def overshoot : BuildMode → ℕ
  | .x86 => 2
  | .portable => 0

theorem calFn_subs (mode : BuildMode) {n : ℕ} (hfour : 4 ∣ n) (hpos : 0 < n) (hn : n < 2^63)
    {fuel : ℕ} (hfuel : n ≤ fuel) :
    calFn mode (BitVec.ofNat 64 n) fuel = some (n+overshoot mode) := by
  cases mode with
  | x86 => exact addCalibrationX86_subs ((by decide : 2 ∣ 4).trans hfour) hpos hn (by omega)
  | portable => exact portableAddChain_subs hfour hpos (by omega) (by omega)

section Calc
variable {τ : Type} [AddCommGroup τ] (M : Machine τ) (mode : BuildMode)

/-- The overhead of the calls and the overshoot of the chains cancel. -/
theorem callTime_sub (n extra : ℕ) (t0 : τ) :
    (t0+M.callTime (n+extra)+M.callTime (n*2+extra)-(t0+M.callTime (n+extra)))-
      (t0+M.callTime (n+extra)-t0) = n • M.perOp := by
  simp only [Machine.callTime,add_nsmul,Nat.mul_two]
  abel

theorem calcTry_exact {n : ℕ} (hfour : 4 ∣ n) (hpos : 0 < n) (hn : n < 2^61) {fuel : ℕ}
    (hfuel : n*2 ≤ fuel) (t0 : τ) :
    calcTry M mode (BitVec.ofNat 64 n) fuel t0 = some (n • M.perOp) := by
  have hdouble : BitVec.ofNat 64 n*2 = BitVec.ofNat 64 (n*2) := by
    rw [BitVec.ofNat_mul]
    rfl
  rw [calcTry,hdouble,calFn_subs mode hfour hpos (by omega) (by omega),
    calFn_subs mode (hfour.mul_right 2) (by omega) (by omega) hfuel]
  exact congrArg some (callTime_sub M n (overshoot mode) t0)

/-- Every entry of the array is the time of the requested operations. -/
theorem calcResults_exact {n : ℕ} (hfour : 4 ∣ n) (hpos : 0 < n) (hn : n < 2^61) {fuel : ℕ}
    (hfuel : n*2 ≤ fuel) (TRIES WARMUP : ℕ) (t0 : ℕ → ℕ → τ) :
    calcResults M mode (BitVec.ofNat 64 n) TRIES WARMUP fuel t0 =
      some (List.replicate TRIES (n • M.perOp)) := by
  have hround : ∀ w, (List.range TRIES).mapM
      (fun r => calcTry M mode (BitVec.ofNat 64 n) fuel (t0 w r)) =
        some (List.replicate TRIES (n • M.perOp)) := fun w => by
    simp only [calcTry_exact M mode hfour hpos hn hfuel]
    exact List.mapM_pure.trans (congrArg some (by rw [List.map_const',List.length_range]))
  rw [calcResults,List.range_succ,List.foldlM_append]
  simp only [hround]
  rw [show List.foldlM (fun _ _ => some (List.replicate TRIES (n • M.perOp))) []
    (List.range WARMUP) = some _ from List.foldlM_pure]
  rfl

/-- In both builds the chains terminate for both counts, the longer run executes exactly the
requested number of subtractions more, and each result of `CalcCpuFreq` is the time of that many
operations, whatever the overhead of a call. -/
theorem calibration_exact (ITERS : ℕ) (hfour : 4 ∣ ITERS) (hpos : 0 < ITERS)
    (hlt : ITERS < 2^61) (TRIES WARMUP : ℕ) (t0 : ℕ → ℕ → τ) :
    ∃ enough subs, ∀ fuel, enough ≤ fuel →
      calFn mode (BitVec.ofNat 64 ITERS) fuel = some subs ∧
      calFn mode (BitVec.ofNat 64 ITERS*2) fuel = some (subs+ITERS) ∧
      calcResults M mode (BitVec.ofNat 64 ITERS) TRIES WARMUP fuel t0 =
        some (List.replicate TRIES (ITERS • M.perOp)) := by
  have hdouble : BitVec.ofNat 64 ITERS*2 = BitVec.ofNat 64 (ITERS*2) := by
    rw [BitVec.ofNat_mul]
    rfl
  refine ⟨ITERS*2,ITERS+overshoot mode,fun fuel hfuel => ⟨?_,?_,?_⟩⟩
  · exact calFn_subs mode hfour hpos (by omega) (by omega)
  · rw [hdouble,calFn_subs mode (hfour.mul_right 2) (by omega) (by omega) hfuel]
    exact congrArg some (by omega)
  · exact calcResults_exact M mode hfour hpos hlt hfuel TRIES WARMUP t0

end Calc

/-- The calibration of the clock timer in the default build: 10000 operations, 1000 tries. -/
theorem calibration_exact_clock :
    ∃ enough subs, ∀ fuel, enough ≤ fuel →
      calFn .x86 10000 fuel = some subs ∧
      calFn .x86 (10000*2) fuel = some (subs+10000) ∧
      calcResults (⟨25,1⟩ : Machine ℤ) .x86 10000 1000 100 fuel (fun _ _ => 0) =
        some (List.replicate 1000 (10000 • 1)) :=
  calibration_exact ⟨25,1⟩ .x86 10000 (by decide) (by decide) (by decide) 1000 100 (fun _ _ => 0)

end UarchBench.Calibration
