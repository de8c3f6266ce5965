import UarchBench.Timing.Delta

/-! Oneshot benchmarks: every sample is printed after the overhead is subtracted, and then the
median of what is left. The clock timer ranks the differences as signed numbers; the perf timer
ranks them as unsigned ones, where the negative differences come last. -/
namespace UarchBench.Timing
open Base

/-- What the sample column shows. -/
inductive SampleNum where
  | number (i : ℕ)
  | median
  deriving DecidableEq, Repr

/-- The lines that `runAndPrintInner` prints below the header. -/
abbrev Printed (δ : Type) := List (SampleNum × δ)

structure ArgProvider (σ α : Type) where
  make : StateM σ α
  free : α → StateM σ Unit

/-- The members of a `OneshotBench` that a run uses. -/
structure OneshotRun (σ α δ : Type) (samples : ℕ) where
  loopCount : UInt32
  rawFunc : UInt64 → α → StateM σ (Samples δ samples)
  argProvider : ArgProvider σ α
  overheadFunc : Option (StateM σ δ)

section Run
variable {σ α δ κ : Type} {samples : ℕ}

/-- `OneshotAlgo::bench`. -/
def oneshotBench (T : Timer δ κ) (now : StateM σ δ) (samples : ℕ)
    (method warmOnce warmEvery : Bench2 σ α) (loopCount : UInt64) (arg : α) :
    StateM σ (Samples δ samples) :=
  timeOne T now samples method warmOnce warmEvery loopCount arg

def subtractOverhead (T : Timer δ κ) (overhead : δ) (results : Samples δ samples) :
    Samples δ samples :=
  results.map (fun raw => T.delta raw overhead)

def OneshotRun.removeOverhead (T : Timer δ κ) (b : OneshotRun σ α δ samples)
    (results : Samples δ samples) : StateM σ (Samples δ samples) :=
  match b.overheadFunc with
  | none => return results
  | some overheadFunc => do
    let overhead ← overheadFunc
    return subtractOverhead T overhead results

/-- The raw samples of a run. -/
def OneshotRun.getRaw (b : OneshotRun σ α δ samples) : StateM σ (Samples δ samples) := do
  let arg ← b.argProvider.make
  let raw ← b.rawFunc b.loopCount.toUInt64 arg
  b.argProvider.free arg
  return raw

variable [LT κ] [DecidableLT κ]

/-- The numbered samples and their median, which throws when there is none. -/
def printSamples (T : Timer δ κ) (S : Sorter δ) (raw : List δ) : Except String (Printed δ) := do
  let median ← T.median S raw
  return raw.mapIdx (fun i d => (SampleNum.number (i+1),d)) ++ [(SampleNum.median,median)]

def OneshotRun.runAndPrintInner (T : Timer δ κ) (S : Sorter δ) (b : OneshotRun σ α δ samples) :
    StateM σ (Except String (Printed δ)) := do
  let raw ← b.getRaw
  let raw ← b.removeOverhead T raw
  return printSamples T S raw.toList

/-- The sample on the line called median. -/
def printedMedian (lines : Printed δ) : Option δ :=
  (lines.find? (fun line => line.1 = SampleNum.median)).map Prod.snd

lemma printedMedian_append (raw : List δ) (median : δ) :
    printedMedian (raw.mapIdx (fun i d => (SampleNum.number (i+1),d)) ++
      [(SampleNum.median,median)]) = some median := by
  rw [printedMedian,List.find?_append]
  have hnone : (raw.mapIdx (fun i d => (SampleNum.number (i+1),d))).find?
      (fun line => line.1 = SampleNum.median) = none := by
    rw [List.find?_eq_none]
    intro line hline
    obtain ⟨i,hi,rfl⟩ := List.mem_mapIdx.mp hline
    simp
  rw [hnone]
  rfl

end Run

section Median
variable {σ α δ κ : Type} {samples : ℕ}

/-- The first metric as an integer. -/
def Timer.reading (T : Timer δ κ) (d : δ) : ℤ := (T.cycles d).toInt

lemma reading_fits (T : Timer δ κ) (d : δ) : Fits (T.reading d) :=
  ⟨Int64.le_toInt _,Int64.toInt_lt _⟩

/-- The cycle readings of a series. -/
def Timer.readings (T : Timer δ κ) (raw : Samples δ samples) : List ℤ := raw.toList.map T.reading

/-- A run of a benchmark from a machine state, with its raw samples and the overhead that it
subtracts from them. Raw readings are not negative and no subtraction of cycles overflows. -/
structure Measured (T : Timer δ κ) (b : OneshotRun σ α δ samples) (w : σ)
    (raw : Samples δ samples) (overhead : δ) : Prop where
  getRaw : (b.getRaw w).1 = raw
  overheadFunc : ∃ f, b.overheadFunc = some f ∧ (f (b.getRaw w).2).1 = overhead
  nonneg : ∀ d ∈ raw.toList, 0 ≤ T.reading d
  fits : ∀ d ∈ raw.toList, Fits (T.reading d-T.reading overhead)

variable {T : Timer δ κ}

/-- The readings after the subtraction. -/
lemma readings_subtract {raw : Samples δ samples} {overhead : δ}
    (hdelta : ∀ d ∈ raw.toList, T.reading (T.delta d overhead) = T.reading d-T.reading overhead) :
    (subtractOverhead T overhead raw).toList.map T.reading =
      (T.readings raw).map (·-T.reading overhead) := by
  rw [subtractOverhead,List.Vector.toList_map,Timer.readings,List.map_map,List.map_map]
  exact List.map_congr_left hdelta

lemma Measured.reading_delta {b : OneshotRun σ α δ samples} {w : σ} {raw : Samples δ samples}
    {overhead : δ} (h : Measured T b w raw overhead)
    (hcycles : ∀ a b, T.cycles (T.delta a b) = T.cycles a-T.cycles b) :
    ∀ d ∈ raw.toList, T.reading (T.delta d overhead) = T.reading d-T.reading overhead := by
  intro d hd
  rw [Timer.reading,hcycles]
  exact toInt_sub_of_fits rfl (h.fits d hd)

lemma Measured.mem_sorted {b : OneshotRun σ α δ samples} {w : σ} {raw : Samples δ samples}
    {overhead : δ} (h : Measured T b w raw overhead) {r : ℤ} (hr : r ∈ T.readings raw) :
    0 ≤ r ∧ Fits r ∧ Fits (r-T.reading overhead) := by
  obtain ⟨d,hd,rfl⟩ := List.mem_map.mp hr
  exact ⟨h.nonneg d hd,reading_fits T d,h.fits d hd⟩

variable [LT κ] [DecidableLT κ] {S : Sorter δ}

/-- The printed median is the median of the raw samples less the overhead, in cycles. Without
samples there is neither. -/
def MedianCommutes (T : Timer δ κ) (S : Sorter δ) (b : OneshotRun σ α δ samples) (w : σ)
    (raw : Samples δ samples) (overhead : δ) : Prop :=
  (b.runAndPrintInner T S w).1.map (fun lines => (printedMedian lines).map T.reading) =
    (T.median S raw.toList).map (fun d => some (T.reading d-T.reading overhead))

/-- Samples that become negative rank below those that do not. -/
def NegativesBelow (T : Timer δ κ) (raw : Samples δ samples) (overhead : δ) : Prop :=
  ∀ a ∈ (subtractOverhead T overhead raw).toList, ∀ b ∈ (subtractOverhead T overhead raw).toList,
    T.reading a < 0 → 0 ≤ T.reading b → T.less a b = true

lemma Measured.run {T : Timer δ κ} {S : Sorter δ} {b : OneshotRun σ α δ samples} {w : σ}
    {raw : Samples δ samples} {overhead : δ} (h : Measured T b w raw overhead) :
    (b.runAndPrintInner T S w).1 =
      printSamples T S (subtractOverhead T overhead raw).toList := by
  obtain ⟨f,hf,hoverhead⟩ := h.overheadFunc
  have hremove : ∀ results s, b.removeOverhead T results s =
      (subtractOverhead T (f s).1 results,(f s).2) := fun results s => by
    rw [OneshotRun.removeOverhead,hf]
    rfl
  change printSamples T S (b.removeOverhead T (b.getRaw w).1 (b.getRaw w).2).1.toList = _
  rw [hremove,h.getRaw,hoverhead]

/-- The rank of the median among the readings, for a comparison by a function of them: any list
of readings whose values are in increasing order has the median in its middle. -/
lemma median_rank {K : Type*} [LinearOrder K] {T : Timer δ κ} {S : Sorter δ} {f : ℤ → K}
    (hless : ComparesBy T.less (fun d => f (T.reading d)))
    (hinj : ∀ a b, Fits a → Fits b → f a = f b → a = b) (range : List δ) (order : List ℤ)
    (horder : sortedKeys ((range.map T.reading).map f) = order.map f)
    (hfits : ∀ r ∈ order, Fits r) {d : δ} (hd : T.median S range = .ok d) :
    order[(range.length-1)/2]? = some (T.reading d) := by
  have hkey := medianf_key S hless hd
  have hmap : range.map (fun d => f (T.reading d)) = (range.map T.reading).map f := by
    rw [List.map_map]
    rfl
  rw [hmap,horder,List.getElem?_map,Option.map_eq_some_iff] at hkey
  obtain ⟨r,hr,heq⟩ := hkey
  rw [hr,hinj r (T.reading d) (hfits r (List.mem_of_getElem? hr)) (reading_fits T d) heq]

lemma printSamples_ok {T : Timer δ κ} {S : Sorter δ} {raw : List δ} {d : δ}
    (h : T.median S raw = .ok d) :
    (printSamples T S raw).map (fun lines => (printedMedian lines).map T.reading) =
      .ok (some (T.reading d)) := by
  rw [printSamples,h]
  exact congrArg (fun m => Except.ok (Option.map T.reading m)) (printedMedian_append raw d)

/-- When the comparison looks at the readings through a function that turns their order after the
subtraction by some number of places, the printed median comes from a rank that far away. -/
theorem medianCommutes_iff {b : OneshotRun σ α δ samples} {w : σ} {raw : Samples δ samples}
    {overhead : δ} (h : Measured T b w raw overhead)
    (hcycles : ∀ a b, T.cycles (T.delta a b) = T.cycles a-T.cycles b)
    {K : Type*} [LinearOrder K] {f : ℤ → K}
    (hless : ComparesBy T.less (fun d => f (T.reading d)))
    (hinj : ∀ a b, Fits a → Fits b → f a = f b → a = b) (turn : ℕ)
    (hraw : sortedKeys ((T.readings raw).map f) = (sortedKeys (T.readings raw)).map f)
    (hturn : sortedKeys ((T.readings raw).map (fun r => f (r-T.reading overhead))) =
      ((sortedKeys (T.readings raw)).rotate turn).map (fun r => f (r-T.reading overhead))) :
    MedianCommutes T S b w raw overhead ↔
      (sortedKeys (T.readings raw))[((samples-1)/2+turn)%samples]? =
        (sortedKeys (T.readings raw))[(samples-1)/2]? := by
  rw [MedianCommutes,h.run]
  by_cases hne : raw.toList = []
  · rw [subtractOverhead,List.Vector.toList_map,Timer.readings,hne]
    exact ⟨fun _ => by simp [sortedKeys],fun _ => rfl⟩
  · have hlen : raw.toList.length = samples := List.Vector.toList_length raw
    have hsublen : (subtractOverhead T overhead raw).toList.length = samples :=
      List.Vector.toList_length _
    have hpos : 0 < samples := hlen ▸ List.length_pos_iff.mpr hne
    obtain ⟨m,hm⟩ := medianf_ok S T.less hne
    obtain ⟨d,hd⟩ := medianf_ok S T.less
      (List.ne_nil_of_length_pos (hsublen.symm ▸ hpos : 0 < (subtractOverhead T overhead
        raw).toList.length))
    have hwanted := median_rank hless hinj _ _ hraw
      (fun r hr => (h.mem_sorted ((sortedKeys_perm _).mem_iff.mp hr)).2.1) hm
    have hprinted := median_rank hless hinj ((subtractOverhead T overhead raw).toList)
      (((sortedKeys (T.readings raw)).rotate turn).map (·-T.reading overhead))
      (by rw [readings_subtract (h.reading_delta hcycles),List.map_map,List.map_map]; exact hturn)
      (fun r hr => by
        obtain ⟨q,hq,rfl⟩ := List.mem_map.mp hr
        exact (h.mem_sorted ((sortedKeys_perm _).mem_iff.mp (List.mem_rotate.mp hq))).2.2) hd
    rw [hlen] at hwanted
    rw [hsublen,List.getElem?_map,List.getElem?_rotate (by simp [Timer.readings]; omega),
      length_sortedKeys,Timer.readings,List.length_map,hlen,Option.map_eq_some_iff] at hprinted
    obtain ⟨r,hr,heq⟩ := hprinted
    have hmedian : T.median S raw.toList = .ok m := hm
    rw [printSamples_ok hd,Timer.readings,hr,← Timer.readings,hwanted,hmedian]
    simp only [Except.map,Except.ok.injEq,Option.some.injEq]
    omega

end Median

section Timers
variable {σ α : Type} {samples : ℕ}

/-- Under the clock timer the subtraction keeps the order of the samples. -/
theorem clock_medianCommutes {S : Sorter Int64} {b : OneshotRun σ α Int64 samples} {w : σ}
    {raw : Samples Int64 samples} {overhead : Int64} (h : Measured clockTimer b w raw overhead) :
    MedianCommutes clockTimer S b w raw overhead := by
  have hless : ComparesBy clockTimer.less (fun d => id (clockTimer.reading d)) :=
    clockTimer_comparesBy
  refine (medianCommutes_iff h (fun _ _ => rfl) hless (fun _ _ _ _ => id) 0 ?_ ?_).mpr ?_
  · rw [List.map_id,List.map_id]
  · rw [List.rotate_zero]
    exact sortedKeys_map _ _ (fun a _ b _ hab => by simpa using hab)
  · rcases Nat.eq_zero_or_pos samples with rfl | hpos
    · rfl
    · rw [Nat.add_zero,Nat.mod_eq_of_lt (by omega)]

theorem clock_negativesBelow (raw : Samples Int64 samples) (overhead : Int64) :
    NegativesBelow clockTimer raw overhead := by
  intro a _ b _ ha hb
  rw [clockTimer_comparesBy a b]
  exact decide_eq_true (ha.trans_le hb)

/-- A signed word read as an unsigned one. -/
def unsigned (z : ℤ) : ℕ := (z%2^64).toNat

lemma unsigned_of_nonneg {z : ℤ} (hz : Fits z) (h : 0 ≤ z) : (unsigned z : ℤ) = z := by
  have := hz.2
  rw [unsigned]
  omega

lemma unsigned_of_neg {z : ℤ} (hz : Fits z) (h : z < 0) : (unsigned z : ℤ) = z+2^64 := by
  have := hz.1
  rw [unsigned]
  omega

lemma unsigned_inj (a b : ℤ) (ha : Fits a) (hb : Fits b) (h : unsigned a = unsigned b) :
    a = b := by
  have := ha.1
  have := hb.1
  have := ha.2
  have := hb.2
  rw [unsigned,unsigned] at h
  omega

lemma toNat_toUInt64 (x : Int64) : x.toUInt64.toNat = unsigned x.toInt := by
  have hlt := x.toBitVec.isLt
  change x.toBitVec.toNat = (x.toBitVec.toInt%2^64).toNat
  rw [BitVec.toInt_eq_toNat_cond]
  split_ifs <;> omega

lemma perfTimer_less (a b : PerfNow) : perfTimer.less a b =
    decide (unsigned (perfTimer.reading a) < unsigned (perfTimer.reading b)) := by
  rw [perfTimer_comparesBy a b]
  simp only [PerfNow.getClk,toNat_toUInt64]
  rfl

/-- The number of raw samples that become negative. -/
def becomeNegative (raw : Samples PerfNow samples) (overhead : PerfNow) : ℕ :=
  countBelow (perfTimer.reading overhead) (perfTimer.readings raw)

/-- The rank that the printed median comes from carries the same reading as the median. -/
def MedianUnmoved (raw : Samples PerfNow samples) (overhead : PerfNow) : Prop :=
  (sortedKeys (perfTimer.readings raw))[((samples-1)/2+becomeNegative raw overhead)%samples]? =
    (sortedKeys (perfTimer.readings raw))[(samples-1)/2]?

/-- Under the perf timer the negative differences come last. -/
theorem perf_medianCommutes_iff {S : Sorter PerfNow} {b : OneshotRun σ α PerfNow samples} {w : σ}
    {raw : Samples PerfNow samples} {overhead : PerfNow}
    (h : Measured perfTimer b w raw overhead) :
    MedianCommutes perfTimer S b w raw overhead ↔ MedianUnmoved raw overhead := by
  refine medianCommutes_iff h (fun _ _ => rfl) perfTimer_less unsigned_inj
    (becomeNegative raw overhead) ?_ ?_
  · refine sortedKeys_map _ _ fun a ha b hb hab => ?_
    obtain ⟨ha,hafits,-⟩ := h.mem_sorted ha
    obtain ⟨hb,hbfits,-⟩ := h.mem_sorted hb
    rw [← Int.ofNat_le,unsigned_of_nonneg hafits ha,unsigned_of_nonneg hbfits hb]
    exact hab
  · refine sortedKeys_wrap _ _ _ ?_ ?_ ?_
    · intro a ha b hb hab hlow
      rw [← Int.ofNat_le,unsigned_of_neg (h.mem_sorted ha).2.2 (by omega),
        unsigned_of_neg (h.mem_sorted hb).2.2 (by omega)]
      omega
    · intro a ha b hb hhigh hab
      rw [← Int.ofNat_le,unsigned_of_nonneg (h.mem_sorted ha).2.2 (by omega),
        unsigned_of_nonneg (h.mem_sorted hb).2.2 (by omega)]
      omega
    · intro a ha b hb hlow hhigh
      have hafits := (h.mem_sorted ha).2.2
      have hbfits := (h.mem_sorted hb).2.2
      have := hafits.1
      have := hbfits.2
      rw [← Int.ofNat_le,unsigned_of_neg hafits (by omega),
        unsigned_of_nonneg hbfits (by omega)]
      omega

lemma becomeNegative_eq_zero {raw : Samples PerfNow samples} {overhead : PerfNow} :
    becomeNegative raw overhead = 0 ↔
      ∀ d ∈ raw.toList, perfTimer.reading overhead ≤ perfTimer.reading d := by
  rw [becomeNegative,countBelow,List.countP_eq_zero,Timer.readings,List.forall_mem_map]
  simp only [decide_eq_true_eq,not_lt]

lemma becomeNegative_eq_samples {raw : Samples PerfNow samples} {overhead : PerfNow} :
    becomeNegative raw overhead = samples ↔
      ∀ d ∈ raw.toList, perfTimer.reading d < perfTimer.reading overhead := by
  have hlen : (perfTimer.readings raw).length = samples := by
    rw [Timer.readings,List.length_map,List.Vector.toList_length]
  have hall : countBelow (perfTimer.reading overhead) (perfTimer.readings raw) =
      (perfTimer.readings raw).length ↔ _ := List.countP_eq_length
  rw [hlen] at hall
  rw [becomeNegative,hall,Timer.readings,List.forall_mem_map]
  simp only [decide_eq_true_eq]

/-- A sample that becomes negative ranks above one that does not. -/
lemma perf_negative_above {b : OneshotRun σ α PerfNow samples} {w : σ}
    {raw : Samples PerfNow samples} {overhead : PerfNow} (h : Measured perfTimer b w raw overhead)
    {c d : PerfNow} (hc : c ∈ raw.toList) (hd : d ∈ raw.toList)
    (hlow : perfTimer.reading c < perfTimer.reading overhead)
    (hhigh : perfTimer.reading overhead ≤ perfTimer.reading d) :
    perfTimer.less (perfTimer.delta c overhead) (perfTimer.delta d overhead) = false := by
  have hreading := h.reading_delta (fun _ _ => rfl)
  have hcfits := h.fits c hc
  have hdfits := h.fits d hd
  have := hcfits.1
  have := hdfits.2
  rw [perfTimer_less,decide_eq_false_iff_not,hreading c hc,hreading d hd,← Int.ofNat_lt,
    unsigned_of_neg hcfits (by omega),unsigned_of_nonneg hdfits (by omega)]
  omega

/-- The ranking is right only if all samples stay or become negative together. -/
theorem perf_negativesBelow_iff {b : OneshotRun σ α PerfNow samples} {w : σ}
    {raw : Samples PerfNow samples} {overhead : PerfNow}
    (h : Measured perfTimer b w raw overhead) :
    NegativesBelow perfTimer raw overhead ↔
      becomeNegative raw overhead = 0 ∨ becomeNegative raw overhead = samples := by
  have hreading := h.reading_delta (fun _ _ => rfl)
  rw [becomeNegative_eq_zero,becomeNegative_eq_samples,NegativesBelow,subtractOverhead,
    List.Vector.toList_map]
  simp only [List.forall_mem_map]
  constructor
  · intro hbelow
    by_contra hsome
    push Not at hsome
    obtain ⟨⟨c,hc,hlow⟩,d,hd,hhigh⟩ := hsome
    have hless := hbelow c hc d hd (by rw [hreading c hc]; omega) (by rw [hreading d hd]; omega)
    rw [perf_negative_above h hc hd hlow hhigh] at hless
    contradiction
  · intro hall c hc d hd hneg hpos
    rw [hreading c hc] at hneg
    rw [hreading d hd] at hpos
    rcases hall with hnone | hall
    · have := hnone c hc
      omega
    · have := hall d hd
      omega

/-- Removing the overhead commutes with the median under the clock timer. Under the perf timer it
does so exactly if the turned rank carries the same reading, and negative samples rank below the
others exactly if there are only samples of one kind. -/
theorem median_overhead (w : σ) :
    (∀ (S : Sorter Int64) (b : OneshotRun σ α Int64 samples) (raw : Samples Int64 samples)
      (overhead : Int64), Measured clockTimer b w raw overhead →
        MedianCommutes clockTimer S b w raw overhead ∧ NegativesBelow clockTimer raw overhead) ∧
    ∀ (S : Sorter PerfNow) (b : OneshotRun σ α PerfNow samples) (raw : Samples PerfNow samples)
      (overhead : PerfNow), Measured perfTimer b w raw overhead →
        (MedianCommutes perfTimer S b w raw overhead ↔ MedianUnmoved raw overhead) ∧
        (NegativesBelow perfTimer raw overhead ↔
          becomeNegative raw overhead = 0 ∨ becomeNegative raw overhead = samples) :=
  ⟨fun _ _ raw overhead h => ⟨clock_medianCommutes h,clock_negativesBelow raw overhead⟩,
    fun _ _ _ _ h => ⟨perf_medianCommutes_iff h,perf_negativesBelow_iff h⟩⟩

end Timers

/-- A run with given results. -/
def fixedRun {δ : Type} {samples : ℕ} (raw : Samples δ samples) (overhead : δ) :
    OneshotRun Unit Unit δ samples :=
  ⟨1,fun _ _ => pure raw,⟨pure (),fun _ => pure ()⟩,some (pure overhead)⟩

def cyclesOnly (cycles : Int64) : PerfNow := ⟨fun i => if i.val = 0 then cycles else 0⟩

lemma fixedRun_measured {δ κ : Type} {samples : ℕ} {T : Timer δ κ} {raw : Samples δ samples}
    {overhead : δ} (hnonneg : ∀ d ∈ raw.toList, 0 ≤ T.reading d)
    (hfits : ∀ d ∈ raw.toList, Fits (T.reading d-T.reading overhead)) :
    Measured T (fixedRun raw overhead) () raw overhead where
  getRaw := rfl
  overheadFunc := ⟨_,rfl,rfl⟩
  nonneg := hnonneg
  fits := hfits

/-- Three samples of which the first drops below the overhead. -/
def mixedSamples : Samples PerfNow 3 := ⟨[cyclesOnly 1,cyclesOnly 5,cyclesOnly 6],rfl⟩

lemma mixedSamples_measured :
    Measured perfTimer (fixedRun mixedSamples (cyclesOnly 2)) () mixedSamples (cyclesOnly 2) :=
  fixedRun_measured (by decide) (by decide)

lemma clockSamples_measured :
    Measured clockTimer (fixedRun ⟨[1,5,6],rfl⟩ 2) () (⟨[1,5,6],rfl⟩ : Samples Int64 3) 2 := by
  have hmem : ∀ d ∈ ([1,5,6] : List Int64), d = 1 ∨ d = 5 ∨ d = 6 := fun d hd => by simpa using hd
  refine fixedRun_measured (fun d hd => ?_) (fun d hd => ?_)
  · rcases hmem d hd with rfl | rfl | rfl <;> decide
  · rcases hmem d hd with rfl | rfl | rfl <;> decide

/-- The clock timer on 1, 5 and 6 with overhead 2, and the perf timer on the same samples. -/
theorem median_overhead_three :
    MedianCommutes clockTimer (mergeSorter Int64) (fixedRun ⟨[1,5,6],rfl⟩ 2) ()
      (⟨[1,5,6],rfl⟩ : Samples Int64 3) 2 ∧
    (MedianCommutes perfTimer (mergeSorter PerfNow) (fixedRun mixedSamples (cyclesOnly 2)) ()
      mixedSamples (cyclesOnly 2) ↔ MedianUnmoved mixedSamples (cyclesOnly 2)) :=
  ⟨((median_overhead ()).1 (mergeSorter Int64) _ _ 2 clockSamples_measured).1,
    ((median_overhead ()).2 (mergeSorter PerfNow) _ _ _ mixedSamples_measured).1⟩

/-- Raw readings 1, 5 and 6 with overhead 2: the printed median is 4, not 3. -/
theorem perf_median_wrong :
    Measured perfTimer (fixedRun mixedSamples (cyclesOnly 2)) () mixedSamples (cyclesOnly 2) ∧
      ¬ MedianCommutes perfTimer (mergeSorter PerfNow) (fixedRun mixedSamples (cyclesOnly 2)) ()
        mixedSamples (cyclesOnly 2) ∧
      ¬ NegativesBelow perfTimer mixedSamples (cyclesOnly 2) := by
  refine ⟨mixedSamples_measured,?_,?_⟩
  · rw [perf_medianCommutes_iff mixedSamples_measured,MedianUnmoved]
    have hsorted : sortedKeys (perfTimer.readings mixedSamples) = [1,5,6] :=
      (eq_sortedKeys (List.Perm.refl _) (by decide)).symm
    rw [hsorted]
    decide
  · rw [perf_negativesBelow_iff mixedSamples_measured]
    decide

end UarchBench.Timing
