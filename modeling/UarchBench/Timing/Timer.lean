import UarchBench.Base.OrderStatistic
import Mathlib.Data.Vector.Basic

/-! The static methods that the measurement templates call on a timer, and the two timers that
need no library outside the tool. Readings are 64-bit and wrap; only the conversion to printed
doubles is left out. -/
namespace UarchBench.Timing
open Base

/-- `std::array<T, samples>`. -/
abbrev Samples (δ : Type) (n : ℕ) := List.Vector δ n

/-- The duck-typed part of a timer: `delta`, `aggr_value`, and the first of the metrics that
`to_result` returns. For all timers the types `now_t` and `delta_t` are the same. -/
structure Timer (δ κ : Type) where
  delta : δ → δ → δ
  aggrValue : δ → κ
  cycles : δ → Int64

/-- `ClockTimerT`: nanoseconds, which `to_result` scales by a constant frequency. -/
def clockTimer : Timer Int64 Int64 where
  delta a b := a-b
  aggrValue delta := delta
  cycles nanos := nanos

abbrev maxExtraEvents : ℕ := 8

abbrev readingCount : ℕ := maxExtraEvents+1

structure PerfNow where
  readings : Fin readingCount → Int64

/-- `PerfNow::getClk` returns the first reading as an unsigned word. -/
def PerfNow.getClk (now : PerfNow) : UInt64 := (now.readings 0).toUInt64

def perfTimer : Timer PerfNow UInt64 where
  delta a b := ⟨fun i => a.readings i-b.readings i⟩
  aggrValue now := now.getClk
  cycles delta := delta.readings 0

section Helper
variable {δ κ : Type} [LT κ] [DecidableLT κ]

def Timer.less (T : Timer δ κ) (left right : δ) : Bool :=
  decide (T.aggrValue left < T.aggrValue right)

def Timer.min (T : Timer δ κ) (range : List δ) : Option δ := minElement T.less range

/-- `Stats::medianf`: the lower of the two middle elements when there are two. -/
def medianf (S : Sorter δ) (range : List δ) (comp : δ → δ → Bool) : Except String δ :=
  if h : range = [] then .error "can't get median of empty range"
  else
    .ok ((S.sort comp range).get ⟨((S.sort comp range).length-1)/2,by
      have hpos := List.length_pos_iff.mpr h
      rw [(S.perm comp range).length_eq]
      omega⟩)

def Timer.median (T : Timer δ κ) (S : Sorter δ) (range : List δ) : Except String δ :=
  medianf S range T.less

/-- The key of the median is the middle one of the sorted keys. -/
theorem medianf_key {K : Type*} [LinearOrder K] (S : Sorter δ) {comp : δ → δ → Bool} {key : δ → K}
    (h : ComparesBy comp key) {range : List δ} {d : δ} (hd : medianf S range comp = .ok d) :
    (sortedKeys (range.map key))[(range.length-1)/2]? = some (key d) := by
  rw [medianf] at hd
  split_ifs at hd with hne
  cases hd
  rw [← S.map_key h,List.getElem?_map,List.get_eq_getElem,Option.map_eq_some_iff]
  exact ⟨_,by rw [← (S.perm comp range).length_eq,List.getElem?_eq_getElem],rfl⟩

theorem medianf_ok (S : Sorter δ) (comp : δ → δ → Bool) {range : List δ} (h : range ≠ []) :
    ∃ d, medianf S range comp = .ok d := ⟨_,dif_neg h⟩

end Helper

/-- The clock timer compares signed numbers. -/
theorem clockTimer_comparesBy : ComparesBy clockTimer.less (fun d => d.toInt) := fun _ _ =>
  decide_eq_decide.mpr Int64.lt_iff_toInt_lt

/-- The perf timer compares unsigned numbers. -/
theorem perfTimer_comparesBy : ComparesBy perfTimer.less (fun d => d.getClk.toNat) := fun _ _ =>
  decide_eq_decide.mpr UInt64.lt_iff_toNat_lt

/-- The integer is a signed 64-bit word. -/
def Fits (z : ℤ) : Prop := -2^63 ≤ z ∧ z < 2^63

instance (z : ℤ) : Decidable (Fits z) := inferInstanceAs (Decidable (_ ∧ _))

/-- A difference of readings that does not overflow. -/
theorem toInt_sub_of_fits {a b : Int64} {z : ℤ} (h : a.toInt-b.toInt = z) (hz : Fits z) :
    (a-b).toInt = z := by
  rw [Int64.toInt_sub,h,Int.bmod_eq_of_le]
  · have := hz.1
    omega
  · have := hz.2
    omega

end UarchBench.Timing
