import UarchBench.Timing.Timer
import Mathlib.Logic.Function.Iterate
import Mathlib.Tactic.Ring

/-! The sampling loop and the delta algorithm. The machine is a state that the timer reads and
that the benchmarked methods change; a series of samples is determined by the states in which its
samples begin. -/
namespace UarchBench.Timing
open Base

/-- `bench2_f`: only the effect of a method on the machine matters. -/
abbrev Bench2 (σ α : Type) := UInt64 → α → StateM σ Unit

section Sampling
variable {σ α δ κ : Type}

def inlinedEmpty : Bench2 σ α := fun _ _ => pure ()

/-- One trip of the sampling loop. -/
def oneSample (T : Timer δ κ) (now : StateM σ δ) (method warmEvery : Bench2 σ α)
    (loopCount : UInt64) (arg : α) : StateM σ δ := do
  warmEvery loopCount arg
  let t0 ← now
  method loopCount arg
  let t1 ← now
  return T.delta t1 t0

def sampleLoop (sample : StateM σ δ) : (samples : ℕ) → StateM σ (Samples δ samples)
  | 0 => return .nil
  | samples+1 => do
    let d ← sample
    let result ← sampleLoop sample samples
    return .cons d result

def timeOne (T : Timer δ κ) (now : StateM σ δ) (samples : ℕ)
    (method warmOnce warmEvery : Bench2 σ α) (loopCount : UInt64) (arg : α) :
    StateM σ (Samples δ samples) := do
  warmOnce loopCount arg
  sampleLoop (oneSample T now method warmEvery loopCount arg) samples

/-- The state in which sample `i` of a series begins. -/
def sampleState (sample : StateM σ δ) (i : ℕ) (s : σ) : σ := (fun s => (sample s).2)^[i] s

/-- The samples of a series, in order. -/
theorem sampleLoop_toList (sample : StateM σ δ) (samples : ℕ) (s : σ) :
    (sampleLoop sample samples s).1.toList =
      (List.range samples).map (fun i => (sample (sampleState sample i s)).1) := by
  induction samples generalizing s with
  | zero => rfl
  | succ samples ih =>
    have htail := ih (sample s).2
    rw [List.range_succ_eq_map,List.map_cons,List.map_map]
    exact congrArg ((sample s).1::·) htail

end Sampling

def warmupSamples : ℕ := 2

def totalSamples : ℕ := 35

/-- `DeltaRaw<DELTA_T, total_samples>`. -/
structure DeltaRaw (δ : Type) where
  base : Samples δ totalSamples
  bench : Samples δ totalSamples

section Algo
variable {σ α δ κ : Type}

/-- The same method with the loop count and with its double. -/
def deltaLoopBench (T : Timer δ κ) (now : StateM σ δ) (benchMethod : Bench2 σ α)
    (loopCount : UInt64) (arg : α) : StateM σ (DeltaRaw δ) := do
  let base ← timeOne T now totalSamples benchMethod inlinedEmpty inlinedEmpty loopCount arg
  let bench ← timeOne T now totalSamples benchMethod inlinedEmpty inlinedEmpty (loopCount*2) arg
  return ⟨base,bench⟩

/-- Two methods with the same loop count. -/
def deltaBench (T : Timer δ κ) (now : StateM σ δ) (benchMethod baseMethod : Bench2 σ α)
    (loopCount : UInt64) (arg : α) : StateM σ (DeltaRaw δ) := do
  let base ← timeOne T now totalSamples baseMethod inlinedEmpty inlinedEmpty loopCount arg
  let bench ← timeOne T now totalSamples benchMethod inlinedEmpty inlinedEmpty loopCount arg
  return ⟨base,bench⟩

variable [LT κ] [DecidableLT κ]

/-- There are more samples than warm-up samples. -/
lemma measured_ne_nil (result : Samples δ totalSamples) :
    result.toList.drop warmupSamples ≠ [] := by
  rw [ne_eq,List.drop_eq_nil_iff,List.Vector.toList_length]
  decide

def aggregateOne (T : Timer δ κ) (result : Samples δ totalSamples) : δ :=
  (T.min (result.toList.drop warmupSamples)).get
    (Option.isSome_iff_exists.mpr (minElement_isSome (measured_ne_nil result)))

def aggregate (T : Timer δ κ) (result : DeltaRaw δ) : δ :=
  T.delta (aggregateOne T result.bench) (aggregateOne T result.base)

lemma aggregateOne_min (T : Timer δ κ) (result : Samples δ totalSamples) :
    minElement T.less (result.toList.drop warmupSamples) = some (aggregateOne T result) :=
  (Option.some_get _).symm

end Algo

/-- For the clock timer the aggregate of a series is its least measured sample. -/
theorem aggregateOne_clock (result : Samples Int64 totalSamples) {d : Int64}
    (hd : d ∈ result.toList.drop warmupSamples)
    (hle : ∀ x ∈ result.toList.drop warmupSamples, d.toInt ≤ x.toInt) :
    aggregateOne clockTimer result = d :=
  Int64.toInt_inj.mp (minElement_key clockTimer_comparesBy (aggregateOne_min clockTimer result)
    hd hle)

/-- Neither the warm-up samples nor the order of the others matter to the clock timer. -/
theorem aggregateOne_perm {result result' : Samples Int64 totalSamples}
    (h : (result.toList.drop warmupSamples).Perm (result'.toList.drop warmupSamples)) :
    aggregateOne clockTimer result = aggregateOne clockTimer result' := by
  obtain ⟨hmem,hleast⟩ :=
    minElement_spec clockTimer_comparesBy (aggregateOne_min clockTimer result')
  exact aggregateOne_clock result (h.mem_iff.mpr hmem) (fun x hx => hleast x (h.mem_iff.mp hx))

theorem aggregate_perm {raw raw' : DeltaRaw Int64}
    (hbase : (raw.base.toList.drop warmupSamples).Perm (raw'.base.toList.drop warmupSamples))
    (hbench : (raw.bench.toList.drop warmupSamples).Perm (raw'.bench.toList.drop warmupSamples)) :
    aggregate clockTimer raw = aggregate clockTimer raw' := by
  rw [aggregate,aggregate,aggregateOne_perm hbase,aggregateOne_perm hbench]

section Noise
variable {σ α : Type}

/-- The time a call takes by the clock, without the limits of a word. -/
def elapsed (now : StateM σ Int64) (method : Bench2 σ α) (n : UInt64) (arg : α) (s : σ) : ℤ :=
  let begun := now s
  let ended := now (method n arg begun.2).2
  ended.1.toInt-begun.1.toInt

/-- The series of samples of a method starting in a state. -/
def series (now : StateM σ Int64) (method : Bench2 σ α) (n : UInt64) (arg : α) :
    StateM σ (Samples Int64 totalSamples) :=
  timeOne clockTimer now totalSamples method inlinedEmpty inlinedEmpty n arg

/-- Every sample of the series takes the given cost and some noise, and one sample after the
warm-up has no noise. -/
def NoisySeries (now : StateM σ Int64) (method : Bench2 σ α) (n : UInt64) (arg : α) (s : σ)
    (cost : ℤ) : Prop :=
  ∃ noise : ℕ → ℕ,
    (∀ i < totalSamples, Fits (cost+noise i) ∧
      elapsed now method n arg
        (sampleState (oneSample clockTimer now method inlinedEmpty n arg) i s) = cost+noise i) ∧
    ∃ i, warmupSamples ≤ i ∧ i < totalSamples ∧ noise i = 0

lemma oneSample_toInt {now : StateM σ Int64} {method : Bench2 σ α} {n : UInt64} {arg : α} {s : σ}
    {z : ℤ} (h : elapsed now method n arg s = z) (hz : Fits z) :
    (oneSample clockTimer now method inlinedEmpty n arg s).1.toInt = z :=
  toInt_sub_of_fits h hz

lemma mem_drop_map_range {β : Type*} (f : ℕ → β) (skip n : ℕ) (x : β) :
    x ∈ ((List.range n).map f).drop skip ↔ ∃ i, skip ≤ i ∧ i < n ∧ f i = x := by
  rw [List.mem_drop_iff_getElem]
  constructor
  · rintro ⟨i,hi,rfl⟩
    rw [List.length_map,List.length_range] at hi
    exact ⟨skip+i,by omega,by omega,by simp⟩
  · rintro ⟨i,hi,hn,rfl⟩
    refine ⟨i-skip,?_,?_⟩
    · rw [List.length_map,List.length_range]
      omega
    · simp [Nat.add_sub_cancel' hi]

/-- The aggregate of a noisy series is the cost itself. -/
theorem aggregateOne_series {now : StateM σ Int64} {method : Bench2 σ α} {n : UInt64} {arg : α}
    {s : σ} {cost : ℤ} (h : NoisySeries now method n arg s cost) :
    (aggregateOne clockTimer (series now method n arg s).1).toInt = cost := by
  obtain ⟨noise,hsample,i,hwarm,hi,hquiet⟩ := h
  have hlist : (series now method n arg s).1.toList =
      (List.range totalSamples).map (fun i => (oneSample clockTimer now method inlinedEmpty n arg
        (sampleState (oneSample clockTimer now method inlinedEmpty n arg) i s)).1) :=
    sampleLoop_toList (oneSample clockTimer now method inlinedEmpty n arg) totalSamples s
  have hvalue : ∀ i < totalSamples, (oneSample clockTimer now method inlinedEmpty n arg
      (sampleState (oneSample clockTimer now method inlinedEmpty n arg) i s)).1.toInt =
        cost+noise i := fun i hi => oneSample_toInt (hsample i hi).2 (hsample i hi).1
  have hcost := hvalue i hi
  rw [hquiet,Nat.cast_zero,add_zero] at hcost
  rw [← hcost]
  refine congrArg Int64.toInt (aggregateOne_clock _ ?_ ?_)
  · rw [hlist,mem_drop_map_range]
    exact ⟨i,hwarm,hi,rfl⟩
  · intro x hx
    rw [hlist,mem_drop_map_range] at hx
    obtain ⟨j,-,hj,rfl⟩ := hx
    rw [hcost,hvalue j hj]
    omega

/-- The difference of two noisy series. -/
theorem aggregate_series {now : StateM σ Int64} {baseMethod benchMethod : Bench2 σ α}
    {n m : UInt64} {arg : α} {s s' : σ} {base bench : ℤ}
    (hbase : NoisySeries now baseMethod n arg s base)
    (hbench : NoisySeries now benchMethod m arg s' bench) (hfits : Fits (bench-base)) :
    (aggregate clockTimer
      ⟨(series now baseMethod n arg s).1,(series now benchMethod m arg s').1⟩).toInt =
        bench-base := by
  refine toInt_sub_of_fits ?_ hfits
  rw [aggregateOne_series hbase,aggregateOne_series hbench]

/-- Under non-negative noise that spares a measured sample of either series, both benchmark
algorithms return the exact difference, which depends on the measured samples only as a
multiset. -/
theorem deltaAlgo_exact (now : StateM σ Int64) (benchMethod baseMethod : Bench2 σ α) (n : UInt64)
    (arg : α) (s : σ) :
    (∀ c k : ℤ, 2*n.toNat < 2^64 → Fits (n.toNat*k) →
      NoisySeries now benchMethod n arg s (c+n.toNat*k) →
      NoisySeries now benchMethod (n*2) arg (series now benchMethod n arg s).2
        (c+(n*2).toNat*k) →
      (aggregate clockTimer (deltaLoopBench clockTimer now benchMethod n arg s).1).toInt =
        n.toNat*k) ∧
    (∀ c₀ k₀ c₁ k₁ : ℤ, Fits ((c₁-c₀)+n.toNat*(k₁-k₀)) →
      NoisySeries now baseMethod n arg s (c₀+n.toNat*k₀) →
      NoisySeries now benchMethod n arg (series now baseMethod n arg s).2 (c₁+n.toNat*k₁) →
      (aggregate clockTimer (deltaBench clockTimer now benchMethod baseMethod n arg s).1).toInt =
        (c₁-c₀)+n.toNat*(k₁-k₀)) ∧
    ∀ raw raw' : DeltaRaw Int64,
      (raw.base.toList.drop warmupSamples).Perm (raw'.base.toList.drop warmupSamples) →
      (raw.bench.toList.drop warmupSamples).Perm (raw'.bench.toList.drop warmupSamples) →
      aggregate clockTimer raw = aggregate clockTimer raw' := by
  refine ⟨fun c k hn hfits hbase hbench => ?_,fun c₀ k₀ c₁ k₁ hfits hbase hbench => ?_,
    fun raw raw' => aggregate_perm⟩
  · have hdouble : ((n*2).toNat : ℤ) = 2*n.toNat := by
      rw [UInt64.toNat_mul,show (2 : UInt64).toNat = 2 from rfl,Nat.mod_eq_of_lt (by omega)]
      push_cast
      ring
    have hdiff : (c+(n*2).toNat*k)-(c+n.toNat*k) = n.toNat*k := by
      rw [hdouble]
      ring
    rw [← hdiff] at hfits ⊢
    exact aggregate_series hbase hbench hfits
  · have hdiff : (c₁+n.toNat*k₁)-(c₀+n.toNat*k₀) = (c₁-c₀)+n.toNat*(k₁-k₀) := by ring
    rw [← hdiff] at hfits ⊢
    exact aggregate_series hbase hbench hfits

end Noise

/-- A machine that is only a clock. -/
def clockNow : StateM Int64 Int64 := fun t => (t,t)

/-- A method whose first call is slow. -/
def coldMethod (call cost : Int64) : Bench2 Int64 Unit := fun n _ t =>
  ((),t+call+cost*n.toInt64+(if t = 0 then 7 else 0))

/-- Five iterations of a method against its double and against a cheaper method. -/
theorem deltaAlgo_exact_cold :
    (aggregate clockTimer (deltaLoopBench clockTimer clockNow (coldMethod 3 2) 5 () 0).1).toInt =
      10 ∧
    (aggregate clockTimer
      (deltaBench clockTimer clockNow (coldMethod 3 2) (coldMethod 1 1) 5 () 0).1).toInt = 7 := by
  obtain ⟨hloop,hdelta,-⟩ := deltaAlgo_exact clockNow (coldMethod 3 2) (coldMethod 1 1) 5 () 0
  refine ⟨hloop 3 2 (by decide) (by decide) ?_ ?_,hdelta 1 1 3 2 (by decide) ?_ ?_⟩
  · exact ⟨fun i => if i = 0 then 7 else 0,by decide +kernel,2,by decide⟩
  · exact ⟨fun _ => 0,by decide +kernel,2,by decide⟩
  · exact ⟨fun i => if i = 0 then 7 else 0,by decide +kernel,2,by decide⟩
  · exact ⟨fun _ => 0,by decide +kernel,2,by decide⟩

end UarchBench.Timing
