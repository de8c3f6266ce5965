import UarchBench.Base.Double
import UarchBench.Base.OrderStatistic

/-! Descriptive statistics of 64-bit samples. The scan for the extrema starts from the greatest
double and from the least positive normal one: the latter is not below samples that are zero or
negative. -/
namespace UarchBench.Stats
open Base

structure DescriptiveStats where
  min : ℚ
  max : ℚ
  avg : ℚ
  median : ℚ
  count : ℕ
  deriving DecidableEq, Repr

section Median
variable {δ : Type} [Add δ] [Div δ] [OfNat δ 2]

/-- The middle of the sorted copy, or the mean of the two middle elements. -/
def middle (copy : List δ) (hne : copy ≠ []) : δ :=
  have hpos := List.length_pos_iff.mpr hne
  let halfSz := copy.length/2
  if copy.length%2 ≠ 0 then copy.get ⟨halfSz,Nat.div_lt_self hpos Nat.one_lt_two⟩
  else
    (copy.get ⟨halfSz-1,(Nat.sub_le _ _).trans_lt (Nat.div_lt_self hpos Nat.one_lt_two)⟩+
      copy.get ⟨halfSz,Nat.div_lt_self hpos Nat.one_lt_two⟩)/2

def median (S : Sorter δ) (range : List δ) (comp : δ → δ → Bool) : Except String δ :=
  if h : range = [] then .error "can't get median of empty range"
  else
    .ok (middle (S.sort comp range) (fun hnil => h (by
      have hperm := S.perm comp range
      rw [hnil] at hperm
      exact hperm.symm.eq_nil)))

end Median

def toDouble (val : Int64) : ℚ := roundDouble val.toInt

/-- `std::less`. -/
def less (a b : Int64) : Bool := decide (a < b)

/-- The locals of the loop. -/
structure Totals where
  min : ℚ
  max : ℚ
  total : ℚ
  count : ℕ

def addValue (s : Totals) (val : Int64) : Totals :=
  let vald := toDouble val
  { min := if vald < s.min then vald else s.min
    max := if s.max < vald then vald else s.max
    total := roundDouble (s.total+vald)
    count := s.count+1 }

def getStats (S : Sorter Int64) (range : List Int64) : Except String DescriptiveStats := do
  let s := range.foldl addValue ⟨doubleMax,doubleMin,0,0⟩
  let median ← median S range less
  return ⟨s.min,s.max,roundDouble (s.total/roundDouble s.count),toDouble median,s.count⟩

def lessDouble (a b : ℚ) : Bool := decide (a < b)

def greaterDouble (a b : ℚ) : Bool := decide (b < a)

lemma lessDouble_comparesBy : ComparesBy lessDouble id := fun _ _ => rfl

lemma greaterDouble_comparesBy : ComparesBy greaterDouble OrderDual.toDual := fun _ _ => rfl

/-- The extrema are the scans for the least element under the two comparisons. -/
lemma foldl_addValue (range : List Int64) (s : Totals) :
    (range.foldl addValue s).min = (range.map toDouble).foldl
        (fun best y => if lessDouble y best then y else best) s.min ∧
      (range.foldl addValue s).max = (range.map toDouble).foldl
        (fun best y => if greaterDouble y best then y else best) s.max ∧
      (range.foldl addValue s).count = s.count+range.length := by
  induction range generalizing s with
  | nil => exact ⟨rfl,rfl,rfl⟩
  | cons val range ih =>
    obtain ⟨hmin,hmax,hcount⟩ := ih (addValue s val)
    rw [List.foldl_cons,hmin,hmax,hcount,List.map_cons,List.foldl_cons,List.foldl_cons,
      List.length_cons]
    refine ⟨?_,?_,Nat.add_right_comm s.count 1 range.length⟩
    · simp only [addValue,lessDouble,decide_eq_true_eq]
    · simp only [addValue,greaterDouble,decide_eq_true_eq]

/-- The conversion to double is exact. -/
def Exact (range : List Int64) : Prop := ∀ v ∈ range, |v.toInt| ≤ 2^53

lemma toDouble_exact {v : Int64} (h : |v.toInt| ≤ 2^53) : toDouble v = v.toInt := roundDouble_int h

section Extrema
variable {range : List Int64}

lemma Exact.map_toDouble (h : Exact range) :
    range.map toDouble = range.map (fun v => (v.toInt : ℚ)) :=
  List.map_congr_left (fun v hv => toDouble_exact (h v hv))

lemma getStats_min (hne : range ≠ []) (hexact : Exact range) (s : Totals)
    (hseed : s.min = doubleMax) :
    (∃ v ∈ range, (range.foldl addValue s).min = v.toInt) ∧
      ∀ v ∈ range, (range.foldl addValue s).min ≤ v.toInt := by
  obtain ⟨hmem,hleast⟩ := foldl_least lessDouble_comparesBy (range.map toDouble) s.min
  rw [← (foldl_addValue range s).1,hexact.map_toDouble] at hmem hleast
  have hbound : ∀ v ∈ range, (range.foldl addValue s).min ≤ v.toInt := fun v hv =>
    hleast _ (List.mem_cons_of_mem _ (List.mem_map_of_mem hv))
  refine ⟨?_,hbound⟩
  rcases List.mem_cons.mp hmem with hmax | hmem
  · obtain ⟨v,hv⟩ := List.exists_mem_of_ne_nil range hne
    have hle := hbound v hv
    have hsmall : (v.toInt : ℚ) ≤ 2^53 := by exact_mod_cast (le_abs_self _).trans (hexact v hv)
    rw [hmax,hseed] at hle
    exact absurd hle (not_le.mpr (lt_doubleMax hsmall))
  · obtain ⟨v,hv,heq⟩ := List.mem_map.mp hmem
    exact ⟨v,hv,heq.symm⟩

lemma getStats_max (hexact : Exact range) (s : Totals) (hseed : s.max = doubleMin) :
    ((∃ v ∈ range, (range.foldl addValue s).max = v.toInt) ↔ ∃ v ∈ range, 0 < v.toInt) ∧
      ∀ v ∈ range, v.toInt ≤ (range.foldl addValue s).max := by
  obtain ⟨hmem,hgreatest⟩ := foldl_least greaterDouble_comparesBy (range.map toDouble) s.max
  rw [← (foldl_addValue range s).2.1,hexact.map_toDouble] at hmem hgreatest
  have hbound : ∀ v ∈ range, (v.toInt : ℚ) ≤ (range.foldl addValue s).max := fun v hv =>
    hgreatest _ (List.mem_cons_of_mem _ (List.mem_map_of_mem hv))
  have hlow : doubleMin ≤ (range.foldl addValue s).max := by
    have := hgreatest s.max List.mem_cons_self
    rw [hseed] at this
    exact this
  refine ⟨⟨?_,?_⟩,hbound⟩
  · rintro ⟨v,hv,heq⟩
    rw [heq] at hlow
    exact ⟨v,hv,by exact_mod_cast doubleMin_pos.trans_le hlow⟩
  · rintro ⟨v,hv,hpos⟩
    rcases List.mem_cons.mp hmem with hmax | hmem
    · have hone : (1 : ℚ) ≤ v.toInt := by exact_mod_cast hpos
      have hle := hone.trans (hbound v hv)
      rw [hmax,hseed] at hle
      exact absurd hle (not_le.mpr doubleMin_lt_one)
    · obtain ⟨w,hw,heq⟩ := List.mem_map.mp hmem
      exact ⟨w,hw,heq.symm⟩

end Extrema

lemma less_comparesBy : ComparesBy less (fun v => v.toInt) := fun _ _ =>
  decide_eq_decide.mpr Int64.lt_iff_toInt_lt

/-- Equal numbers are equal samples, so that all sorting routines agree. -/
lemma sort_eq_of_perm (S S' : Sorter Int64) {xs ys : List Int64} (h : xs.Perm ys) :
    S.sort less xs = S'.sort less ys := by
  have hinj : Function.Injective (fun v : Int64 => v.toInt) := fun _ _ => Int64.toInt_inj.mp
  refine List.map_injective_iff.mpr hinj ?_
  rw [S.map_key less_comparesBy,S'.map_key less_comparesBy]
  exact eq_sortedKeys ((sortedKeys_perm _).trans (h.map _)) (sortedKeys_sorted _)

lemma median_perm (S S' : Sorter Int64) {xs ys : List Int64} (h : xs.Perm ys) :
    median S xs less = median S' ys less := by
  have hnil : xs = [] ↔ ys = [] := by
    rw [← List.length_eq_zero_iff,← List.length_eq_zero_iff,h.length_eq]
  have hsort := sort_eq_of_perm S S' h
  by_cases hxs : xs = []
  · rw [median,median,dif_pos hxs,dif_pos (hnil.mp hxs)]
  · rw [median,median,dif_neg hxs,dif_neg (fun hys => hxs (hnil.mpr hys))]
    simp only [hsort]

/-- The truncated mean of two numbers is between them. -/
lemma mean_between {v w : Int64} (hv : |v.toInt| ≤ 2^53) (hw : |w.toInt| ≤ 2^53)
    (hle : v.toInt ≤ w.toInt) :
    v.toInt ≤ ((v+w)/2).toInt ∧ ((v+w)/2).toInt ≤ w.toInt := by
  have hsum : (v+w).toInt = v.toInt+w.toInt := by
    rw [abs_le] at hv hw
    rw [Int64.toInt_add,Int.bmod_eq_of_le]
    · omega
    · omega
  have hhalf : ((v+w)/2).toInt = (v.toInt+w.toInt).tdiv 2 := by
    rw [Int64.toInt_div_of_ne_right _ _ (by decide),hsum]
    rfl
  rw [hhalf]
  constructor
  · exact Int.le_tdiv_of_mul_le two_pos (by omega)
  · calc
      (v.toInt+w.toInt).tdiv 2 ≤ (w.toInt*2).tdiv 2 := Int.tdiv_le_tdiv two_pos (by omega)
      _ = w.toInt := Int.mul_tdiv_cancel _ two_ne_zero

lemma mean_between_mem {copy : List Int64} (hexact : Exact copy) {v w : Int64} (hv : v ∈ copy)
    (hw : w ∈ copy) :
    ∃ a ∈ copy, ∃ b ∈ copy, a.toInt ≤ ((v+w)/2).toInt ∧ ((v+w)/2).toInt ≤ b.toInt := by
  rcases le_total v.toInt w.toInt with hle | hle
  · exact ⟨v,hv,w,hw,mean_between (hexact v hv) (hexact w hw) hle⟩
  · rw [Int64.add_comm]
    exact ⟨w,hw,v,hv,mean_between (hexact w hw) (hexact v hv) hle⟩

lemma middle_between {copy : List Int64} (hne : copy ≠ []) (hexact : Exact copy) :
    ∃ v ∈ copy, ∃ w ∈ copy, v.toInt ≤ (middle copy hne).toInt ∧
      (middle copy hne).toInt ≤ w.toInt := by
  rw [middle]
  split_ifs with hodd
  · exact ⟨_,List.get_mem _ _,_,List.get_mem _ _,le_rfl,le_rfl⟩
  · exact mean_between_mem hexact (List.get_mem _ _) (List.get_mem _ _)

/-- The median is between two samples. -/
lemma median_between {S : Sorter Int64} {range : List Int64} (hexact : Exact range) {m : Int64}
    (h : median S range less = .ok m) :
    ∃ v ∈ range, ∃ w ∈ range, v.toInt ≤ m.toInt ∧ m.toInt ≤ w.toInt := by
  have hperm := S.perm less range
  rw [median] at h
  split_ifs at h with hne
  rw [← Except.ok.inj h]
  have hcopy : Exact (S.sort less range) := fun v hv => hexact v (hperm.mem_iff.mp hv)
  obtain ⟨v,hv,w,hw,hbetween⟩ := middle_between _ hcopy
  exact ⟨v,hperm.mem_iff.mp hv,w,hperm.mem_iff.mp hw,hbetween⟩

/-- What the summary should say about the samples. -/
structure Describes (stats : DescriptiveStats) (range : List Int64) : Prop where
  min_mem : ∃ v ∈ range, stats.min = v.toInt
  min_le : ∀ v ∈ range, stats.min ≤ v.toInt
  max_mem : ∃ v ∈ range, stats.max = v.toInt
  le_max : ∀ v ∈ range, v.toInt ≤ stats.max
  min_le_median : stats.min ≤ stats.median
  median_le_max : stats.median ≤ stats.max
  count_eq : stats.count = range.length

/-- The summaries agree, except for the average. -/
def SameStats (s t : DescriptiveStats) : Prop :=
  s.min = t.min ∧ s.max = t.max ∧ s.median = t.median ∧ s.count = t.count

lemma getStats_ok {S : Sorter Int64} {range : List Int64} (hne : range ≠ []) :
    ∃ m stats, median S range less = .ok m ∧ getStats S range = .ok stats ∧
      stats.min = (range.foldl addValue ⟨doubleMax,doubleMin,0,0⟩).min ∧
      stats.max = (range.foldl addValue ⟨doubleMax,doubleMin,0,0⟩).max ∧
      stats.median = toDouble m ∧ stats.count = range.length := by
  obtain ⟨m,hm⟩ : ∃ m, median S range less = .ok m := ⟨_,dif_neg hne⟩
  have hcount := (foldl_addValue range ⟨doubleMax,doubleMin,0,0⟩).2.2
  rw [Nat.zero_add] at hcount
  exact ⟨m,_,hm,by rw [getStats,hm]; rfl,rfl,rfl,rfl,hcount⟩

/-- Without a positive sample the maximum is no sample, but still a bound. -/
lemma getStats_describes {S : Sorter Int64} {range : List Int64} (hne : range ≠ [])
    (hexact : Exact range) {stats : DescriptiveStats} (h : getStats S range = .ok stats) :
    Describes stats range ↔ ∃ v ∈ range, 0 < v.toInt := by
  obtain ⟨m,stats',hm,hstats,hmin,hmax,hmedian,hcount⟩ := getStats_ok (S := S) hne
  obtain rfl : stats' = stats := Except.ok.inj (hstats.symm.trans h)
  obtain ⟨hmin_mem,hmin_le⟩ := getStats_min hne hexact ⟨doubleMax,doubleMin,0,0⟩ rfl
  obtain ⟨hmax_mem,hle_max⟩ := getStats_max hexact ⟨doubleMax,doubleMin,0,0⟩ rfl
  rw [← hmin] at hmin_mem hmin_le
  rw [← hmax] at hmax_mem hle_max
  rw [← hmax_mem]
  refine ⟨Describes.max_mem,fun hmem => ?_⟩
  obtain ⟨v,hv,w,hw,hlow,hhigh⟩ := median_between hexact hm
  have hm_exact : |m.toInt| ≤ 2^53 := by
    have hv' := abs_le.mp (hexact v hv)
    have hw' := abs_le.mp (hexact w hw)
    exact abs_le.mpr ⟨by omega,by omega⟩
  rw [toDouble_exact hm_exact] at hmedian
  refine ⟨hmin_mem,hmin_le,hmem,hle_max,?_,?_,hcount⟩
  · rw [hmedian]
    exact (hmin_le v hv).trans (by exact_mod_cast hlow)
  · rw [hmedian]
    exact le_trans (by exact_mod_cast hhigh) (hle_max w hw)

lemma getStats_perm {S S' : Sorter Int64} {xs ys : List Int64} (hne : xs ≠ []) (h : xs.Perm ys)
    {s : DescriptiveStats} (hs : getStats S xs = .ok s) :
    ∃ t, getStats S' ys = .ok t ∧ SameStats s t := by
  have hys : ys ≠ [] := fun hnil => hne (hnil ▸ h).eq_nil
  obtain ⟨m,s',hm,hs',hmin,hmax,hmedian,hcount⟩ := getStats_ok (S := S) hne
  obtain ⟨m',t,hm',ht,hmin',hmax',hmedian',hcount'⟩ := getStats_ok (S := S') hys
  obtain rfl : s' = s := Except.ok.inj (hs'.symm.trans hs)
  have hsame : m = m' := Except.ok.inj (hm.symm.trans ((median_perm S S' h).trans hm'))
  refine ⟨t,ht,?_,?_,?_,?_⟩
  · rw [hmin,hmin',(foldl_addValue xs _).1,(foldl_addValue ys _).1]
    exact foldl_least_perm lessDouble_comparesBy (h.map toDouble) _
  · rw [hmax,hmax',(foldl_addValue xs _).2.1,(foldl_addValue ys _).2.1]
    exact foldl_least_perm greaterDouble_comparesBy (h.map toDouble) _
  · rw [hmedian,hmedian',hsame]
  · rw [hcount,hcount',h.length_eq]

/-- The summary describes the samples exactly if one of them is positive. In any case it does not
depend on their order, nor on the sorting routine. -/
theorem getStats_describes_iff (S : Sorter Int64) (range : List Int64) (hne : range ≠ [])
    (hexact : Exact range) :
    ∃ stats, getStats S range = .ok stats ∧
      (Describes stats range ↔ ∃ v ∈ range, 0 < v.toInt) ∧
      ∀ S' ys, range.Perm ys → ∃ stats', getStats S' ys = .ok stats' ∧ SameStats stats stats' := by
  obtain ⟨m,stats,hm,hstats,-⟩ := getStats_ok (S := S) hne
  exact ⟨stats,hstats,getStats_describes hne hexact hstats,
    fun S' ys h => getStats_perm hne h hstats⟩

theorem getStats_describes_four :
    ∃ stats, getStats (mergeSorter Int64) [3,-1,0,-8] = .ok stats ∧
      (Describes stats [3,-1,0,-8] ↔ ∃ v ∈ ([3,-1,0,-8] : List Int64), 0 < v.toInt) ∧
      ∀ S' ys, [3,-1,0,-8].Perm ys →
        ∃ stats', getStats S' ys = .ok stats' ∧ SameStats stats stats' :=
  getStats_describes_iff (mergeSorter Int64) [3,-1,0,-8] (by decide) (by simp [Exact])

/-- The samples of the clock that stands still. -/
theorem getStats_zeros : ¬ ∀ (S : Sorter Int64) (range : List Int64), range ≠ [] → Exact range →
    ∃ stats, getStats S range = .ok stats ∧ Describes stats range := by
  intro h
  have hzero : ∀ v ∈ List.replicate 100 (0 : Int64), v.toInt = 0 := fun v hv => by
    rw [List.eq_of_mem_replicate hv]
    rfl
  have hexact : Exact (List.replicate 100 (0 : Int64)) := fun v hv => by
    rw [hzero v hv]
    decide
  have hne : List.replicate 100 (0 : Int64) ≠ [] := List.cons_ne_nil _ _
  obtain ⟨stats,hstats,hdescribes⟩ := h (mergeSorter Int64) _ hne hexact
  obtain ⟨v,hv,hpos⟩ := (getStats_describes hne hexact hstats).mp hdescribes
  rw [hzero v hv] at hpos
  exact lt_irrefl 0 hpos

end UarchBench.Stats
