import UarchBench.Util.Table

/-! The table of results: a header line with the names of the metrics, and a line with values for
every benchmark. All metrics share a width that depends on how many names there are and on the
precision. -/
namespace UarchBench.ResultTable
open Base Util Tabular

/-- `DESC_WIDTH`. -/
def descWidth : ℕ := 40

/-- `COLUMN_PAD`. -/
def columnPad : ℕ := 3

/-- What printing reads of the context: the names of the timer, the precision, and how the stream
shows a value in that precision. -/
structure ResultContext (δ : Type) where
  metricNames : List Text
  precision : UInt32
  printValue : UInt32 → δ → Text

/-- A benchmark with its result. -/
structure ResultLine (δ : Type) where
  description : Text
  results : List δ

/-- A printed line without its end. -/
structure PrintedLine where
  name : Text
  metrics : List Text

namespace PrintedLine

def fields (l : PrintedLine) : List Text := l.name::l.metrics

def text (l : PrintedLine) : Text := l.fields.flatten ++ ['\n']

/-- The position at which metric `i` ends. -/
def metricEnd (l : PrintedLine) (i : ℕ) : ℕ := fieldEnd l.fields (i+1)

end PrintedLine

variable {δ : Type} (c : ResultContext δ)

/-- The `unsigned` width; it takes the number of the names, not their lengths. -/
def metricWidth : ℕ := (max c.metricNames.length (4+c.precision.toNat)+columnPad)%2^32

def printOneMetric (metric : Text) : Text := ' '::writeWide .right (metricWidth c) metric

def printAlignedMetrics (metrics : List Text) : Except String (List Text) :=
  if c.metricNames.length = metrics.length then .ok (metrics.map (printOneMetric c))
  else .error "c.getTimerInfo().getMetricNames().size() == metrics.size()"

def printBenchName (name : Text) : Text := writeWide .right descWidth name

def printResultHeader : Except String PrintedLine := do
  return ⟨printBenchName "Benchmark".toList,← printAlignedMetrics c c.metricNames⟩

def printResultLine (line : ResultLine δ) : Except String PrintedLine := do
  return ⟨printBenchName line.description,
    ← printAlignedMetrics c (line.results.map (c.printValue c.precision))⟩

/-- The widths that the format allows for: a description fits its column, and a value needs four
characters besides its decimal places. -/
structure Fits (line : ResultLine δ) : Prop where
  description : line.description.length ≤ descWidth
  results : line.results.length = c.metricNames.length
  value : ∀ v ∈ line.results, (c.printValue c.precision v).length ≤ 4+c.precision.toNat

/-- In all lines the metrics end where they end in the header. -/
def Aligned (lines : List (ResultLine δ)) : Prop :=
  ∃ header, printResultHeader c = .ok header ∧ ∀ line ∈ lines, ∃ l,
    printResultLine c line = .ok l ∧
      ∀ i < c.metricNames.length, header.metricEnd i = l.metricEnd i

/-- The width as `setw` takes it. -/
def setWidth : ℕ := (Int32.ofNat (metricWidth c)).toInt.toNat

/-- Two texts take fields of the same length. -/
def Level (width : ℕ) (a b : Text) : Prop :=
  (a.length ≤ width ∧ b.length ≤ width) ∨ a.length = b.length

lemma length_printOneMetric (metric : Text) :
    (printOneMetric c metric).length = max (setWidth c) metric.length+1 := by
  rw [printOneMetric,List.length_cons,length_writeWide,setWidth]

lemma level_iff (a b : Text) :
    (printOneMetric c a).length = (printOneMetric c b).length ↔ Level (setWidth c) a b := by
  rw [length_printOneMetric,length_printOneMetric,Level]
  omega

lemma length_printBenchName {name : Text} (h : name.length ≤ descWidth) :
    (printBenchName name).length = descWidth := by
  have hwidth : (Int32.ofNat descWidth).toInt.toNat = descWidth := (setw_toNat _).mpr (by decide)
  rw [printBenchName,length_writeWide,hwidth,max_eq_left h]

variable {c}

/-- A line of the table with the header's fields. -/
def headerLine (c : ResultContext δ) : PrintedLine :=
  ⟨printBenchName "Benchmark".toList,c.metricNames.map (printOneMetric c)⟩

lemma printResultHeader_eq : printResultHeader c = .ok (headerLine c) := by
  rw [printResultHeader,printAlignedMetrics,if_pos rfl]
  rfl

lemma printResultLine_eq {line : ResultLine δ} (h : Fits c line) :
    printResultLine c line = .ok ⟨printBenchName line.description,
      (line.results.map (c.printValue c.precision)).map (printOneMetric c)⟩ := by
  rw [printResultLine,printAlignedMetrics,if_pos (by rw [List.length_map,h.results])]
  rfl

/-- Behind names of the same length the metrics end alike exactly if they have the same lengths. -/
lemma metricEnd_eq_iff {l l' : PrintedLine} (hname : l.name.length = l'.name.length)
    (hlen : l.metrics.length = l'.metrics.length) :
    (∀ i < l.metrics.length, l.metricEnd i = l'.metricEnd i) ↔
      List.Forall₂ (fun f g => f.length = g.length) l.metrics l'.metrics := by
  rw [← fieldEnd_eq_iff hlen]
  refine forall₂_congr (fun i _ => ?_)
  rw [PrintedLine.metricEnd,PrintedLine.metricEnd,PrintedLine.fields,PrintedLine.fields,
    fieldEnd_succ,fieldEnd_succ,hname]
  omega

/-- A line is in step with the header exactly if every value is level with its name. -/
theorem line_aligned_iff {line : ResultLine δ} (h : Fits c line) :
    (∃ l, printResultLine c line = .ok l ∧
      ∀ i < c.metricNames.length, (headerLine c).metricEnd i = l.metricEnd i) ↔
    List.Forall₂ (Level (setWidth c)) c.metricNames
      (line.results.map (c.printValue c.precision)) := by
  have hname : (printBenchName "Benchmark".toList).length =
      (printBenchName line.description).length := by
    rw [length_printBenchName (by decide),length_printBenchName h.description]
  simp only [printResultLine_eq h,Except.ok.injEq,exists_eq_left']
  have hends := @metricEnd_eq_iff (headerLine c) ⟨printBenchName line.description,
    (line.results.map (c.printValue c.precision)).map (printOneMetric c)⟩ hname
    (by simp [headerLine,h.results])
  simp only [headerLine,List.length_map,List.forall₂_map_left_iff,List.forall₂_map_right_iff,
    level_iff] at hends ⊢
  exact hends

/-- In the range of an `int`, the width is the one of the formula. -/
lemma setWidth_eq (hprecision : 7+c.precision.toNat < 2^31)
    (hnames : c.metricNames.length+3 < 2^31) :
    setWidth c = max c.metricNames.length (4+c.precision.toNat)+3 := by
  have hlt : max c.metricNames.length (4+c.precision.toNat)+3 < 2^31 := by omega
  have hwidth : metricWidth c = max c.metricNames.length (4+c.precision.toNat)+3 :=
    Nat.mod_eq_of_lt (by rw [columnPad]; omega)
  rw [setWidth,hwidth]
  exact (setw_toNat _).mpr hlt

/-- With a width that all values fit, a line is level if all names fit it, too. -/
lemma forall₂_level_iff {width : ℕ} {names values : List Text} (hlen : names.length = values.length)
    (hvalues : ∀ v ∈ values, v.length ≤ width) :
    List.Forall₂ (Level width) names values ↔ ∀ name ∈ names, name.length ≤ width := by
  induction names generalizing values with
  | nil =>
    obtain rfl := List.length_eq_zero_iff.mp hlen.symm
    simp
  | cons name names ih =>
    obtain ⟨v,values,rfl⟩ : ∃ v rest, values = v::rest :=
      List.exists_cons_of_length_eq_add_one hlen.symm
    obtain ⟨hv,hvalues⟩ := List.forall_mem_cons.mp hvalues
    rw [List.forall₂_cons,ih (Nat.succ.inj hlen) hvalues,List.forall_mem_cons,Level]
    refine and_congr_left (fun _ => ?_)
    omega

lemma aligned_iff_level {lines : List (ResultLine δ)} (h : ∀ line ∈ lines, Fits c line) :
    Aligned c lines ↔ ∀ line ∈ lines, List.Forall₂ (Level (setWidth c)) c.metricNames
      (line.results.map (c.printValue c.precision)) := by
  simp only [Aligned,printResultHeader_eq,Except.ok.injEq,exists_eq_left']
  exact forall₂_congr (fun line hline => line_aligned_iff (h line hline))

/-- The metrics line up exactly if each name either fits the width together with every value below
it or is as long as all of them. For a precision and a number of names that fit an `int`, this means
that a table with lines has no name beyond the width. -/
theorem resultTable_aligned_iff {lines : List (ResultLine δ)} (h : ∀ line ∈ lines, Fits c line) :
    (Aligned c lines ↔ ∀ line ∈ lines, List.Forall₂ (Level (setWidth c)) c.metricNames
      (line.results.map (c.printValue c.precision))) ∧
    (7+c.precision.toNat < 2^31 → c.metricNames.length+3 < 2^31 →
      (Aligned c lines ↔ lines = [] ∨ ∀ name ∈ c.metricNames,
        name.length ≤ max c.metricNames.length (4+c.precision.toNat)+3)) := by
  refine ⟨aligned_iff_level h,fun hprecision hnames => ?_⟩
  have hfit : ∀ line ∈ lines, (List.Forall₂ (Level (setWidth c)) c.metricNames
      (line.results.map (c.printValue c.precision)) ↔ ∀ name ∈ c.metricNames,
        name.length ≤ max c.metricNames.length (4+c.precision.toNat)+3) := by
    intro line hline
    rw [← setWidth_eq hprecision hnames]
    refine forall₂_level_iff (by rw [List.length_map,(h line hline).results]) (fun v hv => ?_)
    obtain ⟨r,hr,rfl⟩ := List.mem_map.mp hv
    have hvalue := (h line hline).value r hr
    rw [setWidth_eq hprecision hnames]
    omega
  rw [aligned_iff_level h,forall₂_congr hfit]
  cases lines with
  | nil => simp
  | cons line lines =>
    rw [or_iff_right (List.cons_ne_nil line lines)]
    exact ⟨fun hall => hall line List.mem_cons_self,fun hall _ _ => hall⟩

/-- A timer of two metrics, whose values are given as they are printed. -/
def twoMetrics (first second : String) : ResultContext Text :=
  ⟨[first.toList,second.toList],2,fun _ v => v⟩

def twoResults : ResultLine Text := ⟨"Dependent add chain".toList,["1.00".toList,"4.00".toList]⟩

lemma twoResults_fits (first second : String) :
    ∀ line ∈ [twoResults], Fits (twoMetrics first second) line := by
  refine List.forall_mem_singleton.mpr ⟨by decide,rfl,?_⟩
  have hlen : ∀ v ∈ twoResults.results, v.length ≤ 6 := by decide
  exact hlen

/-- The names of the standard timer. -/
theorem resultTable_aligned_nanos :
    (Aligned (twoMetrics "Cycles" "Nanos") [twoResults] ↔ ∀ line ∈ [twoResults],
      List.Forall₂ (Level (setWidth (twoMetrics "Cycles" "Nanos")))
        (twoMetrics "Cycles" "Nanos").metricNames (line.results.map id)) ∧
    (7+2 < 2^31 → (twoMetrics "Cycles" "Nanos").metricNames.length+3 < 2^31 →
      (Aligned (twoMetrics "Cycles" "Nanos") [twoResults] ↔ [twoResults] = [] ∨
        ∀ name ∈ (twoMetrics "Cycles" "Nanos").metricNames,
          name.length ≤ max (twoMetrics "Cycles" "Nanos").metricNames.length (4+2)+3)) :=
  resultTable_aligned_iff (twoResults_fits "Cycles" "Nanos")

/-- A header of twelve characters does not fit the nine of the width. -/
theorem resultTable_not_aligned :
    (∀ line ∈ [twoResults], Fits (twoMetrics "Cycles" "instructions") line) ∧
      ¬ Aligned (twoMetrics "Cycles" "instructions") [twoResults] := by
  refine ⟨twoResults_fits _ _,fun h => ?_⟩
  have hlevel := (aligned_iff_level (twoResults_fits _ _)).mp h twoResults List.mem_cons_self
  obtain ⟨-,hsecond,-⟩ := (List.forall₂_cons.mp hlevel).imp_right List.forall₂_cons.mp
  rcases hsecond with ⟨hle,-⟩ | heq
  · exact absurd hle (by decide)
  · exact absurd heq (by decide)

end UarchBench.ResultTable
