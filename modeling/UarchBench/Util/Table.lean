import UarchBench.Base.Columns
import UarchBench.Base.ExceptList
import UarchBench.Base.Numbered
import UarchBench.Util.Split
import Mathlib.Data.List.Forall2
import Mathlib.Data.List.GetD

/-! Tables as text. The width of a column is found in one traversal of the rows and used in a
second one, and it passes through the `int` parameter of `std::setw` on the way. -/
namespace UarchBench.Tabular
open Base Util

inductive Justify
  | left
  | right
  deriving DecidableEq, Repr

structure ColInfo where
  justify : Justify := .left
  deriving DecidableEq, Repr

/-- The cells of a row; its pointer to the table is the argument of the functions that use it. -/
abbrev Row := List Text

structure Table where
  rows : List Row := []
  colinfo : List ColInfo := []
  deriving DecidableEq, Repr

/-- `newRow`, with the calls of `add` for the row it returns. -/
def newRow (t : Table) (row : Row) : Table := {t with rows := t.rows ++ [row]}

/-- The assignment through the reference that the first `colInfo` returns. -/
def setColInfo (t : Table) (col : ℕ) (info : ColInfo) : Table :=
  let colinfo := if col ≥ t.colinfo.length then
      t.colinfo ++ List.replicate (col+1-t.colinfo.length) ({} : ColInfo)
    else t.colinfo
  {t with colinfo := colinfo.set col info}

/-- The second `colInfo`. -/
def colInfo (t : Table) (col : ℕ) : ColInfo :=
  if h : col < t.colinfo.length then t.colinfo.get ⟨col,h⟩ else {}

def getSizes (row : Row) : List ℕ := row.map List.length

/-- What `ss << std::setw(w) << side << e` writes. -/
def writeWide (side : Justify) (w : ℕ) (e : Text) : Text :=
  let width : ℤ := (Int32.ofNat w).toInt
  match side with
  | .left => e.rightpad width.toNat ' '
  | .right => e.leftpad width.toNat ' '

def justify (cinfo : ColInfo) (e : Text) (w : ℕ) : Except String Text :=
  let s := writeWide cinfo.justify w e
  if s.length = w then .ok s else .error "s.size() == w"

/-- The body of the loop of `Row::str`; the flag is `first`. -/
def strCell (t : Table) (sizes : List ℕ) (s : Text × Bool) (cell : Text × ℕ) :
    Except String (Text × Bool) :=
  match sizes[cell.2]? with
  | none => .error "c < sizes.size()"
  | some w => do
    let field ← justify (colInfo t cell.2) cell.1 w
    return ((if s.2 then s.1 else s.1 ++ [' ']) ++ field,false)

/-- `Row::str`. -/
def rowStr (t : Table) (os : Text) (row : Row) (sizes : List ℕ) : Except String Text := do
  let s ← row.zipIdx.foldlM (strCell t sizes) (os,true)
  return s.1

/-- One column of a row, while the widths are found. -/
def growColumn (maxSizes : List ℕ) (size : ℕ × ℕ) : Except String (List ℕ) :=
  let (rowSize,c) := size
  if c ≥ maxSizes.length then
    if maxSizes.length = c then .ok (maxSizes ++ [rowSize]) else .error "max_sizes.size() == c"
  else .ok (maxSizes.modify c (max · rowSize))

/-- The inner loop that finds the widths. -/
def growRow (maxSizes : List ℕ) (r : Row) : Except String (List ℕ) :=
  (getSizes r).zipIdx.foldlM growColumn maxSizes

/-- The body of the loop that prints the rows. -/
def strRow (t : Table) (maxSizes : List ℕ) (ss : Text) (r : Row) : Except String Text := do
  return (← rowStr t ss r maxSizes) ++ ['\n']

/-- `Table::str`. -/
def str (t : Table) : Except String Text := do
  let maxSizes ← t.rows.foldlM growRow []
  t.rows.foldlM (strRow t maxSizes) []

lemma colInfo_eq (t : Table) (col : ℕ) : colInfo t col = t.colinfo.getD col {} := by
  rw [colInfo]
  split_ifs with h
  · rw [List.getD_eq_getElem _ _ h,List.get_eq_getElem]
  · rw [List.getD_eq_default _ _ (not_lt.mp h)]

/-- A column keeps what was last set for it, and the others what they had. -/
theorem colInfo_setColInfo (t : Table) (col : ℕ) (info : ColInfo) (c : ℕ) :
    colInfo (setColInfo t col info) c = if c = col then info else colInfo t c := by
  rw [colInfo_eq,colInfo_eq,setColInfo,List.getD_eq_getElem?_getD,List.getD_eq_getElem?_getD]
  dsimp only
  by_cases hc : c = col
  · subst hc
    rw [if_pos rfl,List.getElem?_set_self]
    · rfl
    · split_ifs with hlen
      · rw [List.length_append,List.length_replicate]
        omega
      · omega
  · rw [if_neg hc,List.getElem?_set_ne (Ne.symm hc)]
    split_ifs with hlen
    · rw [List.getElem?_append]
      split_ifs with hlt
      · rfl
      · rw [List.getElem?_replicate,List.getElem?_eq_none (not_lt.mp hlt)]
        split_ifs <;> rfl
    · rfl

/-- The greatest length of a cell in a column, over the rows that reach it. -/
def width (t : Table) (c : ℕ) : ℕ := (column (t.rows.map getSizes) c).max?.getD 0

/-- The columns in front have been widened, those at the back come next. -/
lemma growColumn_run (sizes front back : List ℕ) :
    (sizes.zipIdx front.length).foldlM growColumn (front ++ back) =
      .ok (front ++ widen back sizes) := by
  induction sizes generalizing front back with
  | nil =>
    rw [widen_nil]
    rfl
  | cons size sizes ih =>
    rw [List.zipIdx_cons,List.foldlM_cons]
    cases back with
    | nil =>
      have hgrow : growColumn (front ++ []) (size,front.length) = .ok (front ++ [size]) := by
        rw [List.append_nil,growColumn,if_pos le_rfl,if_pos rfl]
      have hnext := ih (front ++ [size]) []
      rw [List.length_append,List.append_nil,List.append_assoc] at hnext
      rw [hgrow]
      exact hnext
    | cons width back =>
      have hgrow : growColumn (front ++ width::back) (size,front.length) =
          .ok (front ++ max width size::back) := by
        have hlt : ¬ front.length ≥ (front ++ width::back).length := by
          rw [List.length_append,List.length_cons]
          omega
        rw [growColumn,if_neg hlt,modify_append]
      have hnext := ih (front ++ [max width size]) back
      rw [List.length_append,List.append_assoc,List.append_assoc] at hnext
      rw [hgrow]
      exact hnext

lemma growRow_eq (maxSizes : List ℕ) (r : Row) :
    growRow maxSizes r = .ok (widen maxSizes (getSizes r)) :=
  growColumn_run (getSizes r) [] maxSizes

/-- The widths as the first traversal finds them. -/
def widths (t : Table) : List ℕ := (t.rows.map getSizes).foldl widen []

lemma foldlM_growRow (t : Table) : t.rows.foldlM growRow [] = .ok (widths t) := by
  rw [foldlM_ok (fun r _ maxSizes => growRow_eq maxSizes r),widths,List.foldl_map]

/-- Every cell has a column, which is wide enough. -/
lemma widths_cell {t : Table} {row : Row} (hrow : row ∈ t.rows) {c : ℕ} {e : Text}
    (he : row[c]? = some e) : (widths t)[c]? = some (width t c) ∧ e.length ≤ width t c := by
  have hmem : e.length ∈ column (t.rows.map getSizes) c := by
    refine List.mem_filterMap.mpr ⟨getSizes row,List.mem_map_of_mem hrow,?_⟩
    rw [getSizes,List.getElem?_map,he]
    rfl
  obtain ⟨w,hw⟩ := Option.isSome_iff_exists.mp (List.isSome_max?_of_mem hmem)
  rw [width,widths,foldl_widen,hw]
  exact ⟨rfl,(List.max?_eq_some_iff.mp hw).2 _ hmem⟩

/-- The parameter of `setw` is the width as far as that fits. -/
lemma setw_toNat (w : ℕ) : (Int32.ofNat w).toInt.toNat = w ↔ w < 2^31 := by
  constructor
  · intro h
    have hlt := Int32.toInt_lt (Int32.ofNat w)
    omega
  · intro h
    rw [Int32.toInt_ofNat_of_lt h,Int.toNat_natCast]

lemma length_writeWide (side : Justify) (w : ℕ) (e : Text) :
    (writeWide side w e).length = max (Int32.ofNat w).toInt.toNat e.length := by
  cases side with
  | left => exact List.length_rightpad ..
  | right => exact List.length_leftpad ..

/-- The cell in a field of the given width. -/
def field (side : Justify) (w : ℕ) (e : Text) : Text :=
  match side with
  | .left => e.rightpad w ' '
  | .right => e.leftpad w ' '

lemma length_field (side : Justify) {w : ℕ} {e : Text} (h : e.length ≤ w) :
    (field side w e).length = w := by
  cases side with
  | left => exact (List.length_rightpad ..).trans (max_eq_left h)
  | right => exact (List.length_leftpad ..).trans (max_eq_left h)

/-- How far the text is from the left end of its field. -/
def indent (side : Justify) (w : ℕ) (e : Text) : ℕ :=
  match side with
  | .left => 0
  | .right => w-e.length

lemma indent_le (side : Justify) {w : ℕ} {e : Text} (h : e.length ≤ w) :
    indent side w e+e.length ≤ w := by
  cases side with
  | left => simpa [indent] using h
  | right => exact (Nat.sub_add_cancel h).le

lemma field_text (side : Justify) (w : ℕ) (e : Text) :
    ((field side w e).drop (indent side w e)).take e.length = e := by
  cases side with
  | left => exact List.take_left
  | right =>
    have hlen : (List.replicate (w-e.length) ' ').length = w-e.length := List.length_replicate
    change ((List.replicate (w-e.length) ' ' ++ e).drop (w-e.length)).take e.length = e
    rw [List.drop_left' hlen,List.take_length]

lemma field_blank {side : Justify} {w i : ℕ} {e : Text} {x : Char}
    (h : (field side w e)[i]? = some x)
    (hi : i < indent side w e ∨ indent side w e+e.length ≤ i) : x = ' ' := by
  cases side with
  | left =>
    change (e ++ List.replicate (w-e.length) ' ')[i]? = some x at h
    rw [List.getElem?_append_right (by simp only [indent] at hi; omega)] at h
    exact List.eq_of_mem_replicate (List.mem_of_getElem? h)
  | right =>
    change (List.replicate (w-e.length) ' ' ++ e)[i]? = some x at h
    rcases hi with hi | hi
    · rw [List.getElem?_append_left (by rw [List.length_replicate]; exact hi)] at h
      exact List.eq_of_mem_replicate (List.mem_of_getElem? h)
    · simp only [indent] at hi
      rw [List.getElem?_eq_none (by rw [List.length_append,List.length_replicate]; omega)] at h
      cases h

/-- The column fits in the parameter of `setw`, or needs no padding for this cell. -/
def Fits (w : ℕ) (e : Text) : Prop := w < 2^31 ∨ e.length = w

lemma justify_ok {cinfo : ColInfo} {w : ℕ} {e : Text} (hle : e.length ≤ w) (h : Fits w e) :
    justify cinfo e w = .ok (field cinfo.justify w e) := by
  have hpad : (Int32.ofNat w).toInt.toNat-e.length = w-e.length := by
    rcases h with h | h
    · rw [(setw_toNat w).mpr h]
    · have hlt := Int32.toInt_lt (Int32.ofNat w)
      by_cases hw : w < 2^31
      · rw [(setw_toNat w).mpr hw]
      · omega
  have hwrite : writeWide cinfo.justify w e = field cinfo.justify w e := by
    cases hside : cinfo.justify with
    | left => rw [writeWide,field,List.rightpad,List.rightpad,hpad]
    | right => rw [writeWide,field,List.leftpad,List.leftpad,hpad]
  rw [justify,hwrite,if_pos (length_field _ hle)]

lemma justify_error {cinfo : ColInfo} {w : ℕ} {e : Text} (h : ¬ Fits w e) :
    justify cinfo e w = .error "s.size() == w" := by
  refine if_neg (fun hlen => h ?_)
  rw [length_writeWide] at hlen
  rcases max_choice (Int32.ofNat w).toInt.toNat e.length with hmax | hmax
  · exact Or.inl ((setw_toNat w).mp (hmax.symm.trans hlen))
  · exact Or.inr (hmax.symm.trans hlen)

/-- The fields of a row. -/
def rowFields (t : Table) (row : Row) : List Text :=
  row.zipIdx.map (fun cell => field (colInfo t cell.2).justify (width t cell.2) cell.1)

lemma rowFields_getElem? (t : Table) (row : Row) (c : ℕ) : (rowFields t row)[c]? =
    row[c]?.map (fun e => field (colInfo t c).justify (width t c) e) := by
  rw [rowFields,List.getElem?_map,List.getElem?_zipIdx,Option.map_map,Nat.zero_add]
  rfl

/-- The loop of `Row::str` for cells whose fields are known. -/
def addField (t : Table) (s : Text × Bool) (cell : Text × ℕ) : Text × Bool :=
  ((if s.2 then s.1 else s.1 ++ [' ']) ++
    field (colInfo t cell.2).justify (width t cell.2) cell.1,false)

lemma foldl_addField (t : Table) (cells : List (Text × ℕ)) (os : Text) (first : Bool) :
    (cells.foldl (addField t) (os,first)).1 =
      os ++ (if first = true ∨ cells = [] then [] else [' ']) ++ joined ' ' (cells.map
        (fun cell => field (colInfo t cell.2).justify (width t cell.2) cell.1)) := by
  induction cells generalizing os first with
  | nil => simp [joined]
  | cons cell cells ih =>
    rw [List.foldl_cons,addField,ih,List.map_cons]
    by_cases hcells : cells = []
    · subst hcells
      cases first <;> simp [joined]
    · rw [joined_cons (by simpa using hcells)]
      cases first <;> simp [hcells]

def rowLine (t : Table) (row : Row) : Text := joined ' ' (rowFields t row)

lemma rowStr_ok {t : Table} {row : Row} (hrow : row ∈ t.rows)
    (h : ∀ c e, row[c]? = some e → Fits (width t c) e) (os : Text) :
    rowStr t os row (widths t) = .ok (os ++ rowLine t row) := by
  have hcells : ∀ cell ∈ row.zipIdx, ∀ s,
      strCell t (widths t) s cell = .ok (addField t s cell) := by
    intro cell hcell s
    have he : row[cell.2]? = some cell.1 := List.mem_zipIdx_iff_getElem?.mp hcell
    obtain ⟨hwidth,hle⟩ := widths_cell hrow he
    rw [strCell,hwidth]
    dsimp only
    rw [justify_ok hle (h _ _ he)]
    rfl
  have hline := foldl_addField t row.zipIdx os true
  rw [if_pos (Or.inl rfl),List.append_nil] at hline
  rw [rowStr,foldlM_ok hcells]
  exact congrArg Except.ok hline

/-- The assertion on the padded text fails for the first cell that does not fit. -/
lemma rowStr_error {t : Table} {row : Row} (hrow : row ∈ t.rows) {c : ℕ} {e : Text}
    (he : row[c]? = some e) (h : ¬ Fits (width t c) e) (os : Text) :
    ∃ error, rowStr t os row (widths t) = .error error := by
  have hcell : ∃ cell ∈ row.zipIdx, ∀ s, ∃ error, strCell t (widths t) s cell = .error error := by
    refine ⟨(e,c),List.mem_zipIdx_iff_getElem?.mpr he,fun s => ?_⟩
    rw [strCell,(widths_cell hrow he).1]
    dsimp only
    rw [justify_error h]
    exact ⟨_,rfl⟩
  obtain ⟨error,herror⟩ := foldlM_error hcell (os,true)
  rw [rowStr,herror]
  exact ⟨error,rfl⟩

/-- Every cell fits. -/
def CellsFit (t : Table) : Prop :=
  ∀ row ∈ t.rows, ∀ c e, row[c]? = some e → Fits (width t c) e

lemma str_eq (t : Table) : str t = t.rows.foldlM (strRow t (widths t)) [] := by
  rw [str,foldlM_growRow]
  rfl

lemma str_ok {t : Table} (h : CellsFit t) :
    str t = .ok ((t.rows.map (rowLine t)).flatMap (· ++ ['\n'])) := by
  have hrows : ∀ row ∈ t.rows, ∀ ss,
      strRow t (widths t) ss row = .ok (ss ++ (rowLine t row ++ ['\n'])) := by
    intro row hrow ss
    rw [strRow,rowStr_ok hrow (h row hrow),← List.append_assoc]
    rfl
  rw [str_eq,foldlM_ok hrows,List.foldl_append_eq_append,List.flatMap_map,List.nil_append]
  rfl

lemma str_error {t : Table} (h : ¬ CellsFit t) : ∃ error, str t = .error error := by
  unfold CellsFit at h
  push Not at h
  obtain ⟨row,hrow,c,e,he,hfit⟩ := h
  rw [str_eq]
  refine foldlM_error ⟨row,hrow,fun ss => ?_⟩ []
  obtain ⟨error,herror⟩ := rowStr_error hrow he hfit ss
  rw [strRow,herror]
  exact ⟨error,rfl⟩

/-- Where a column begins. -/
def columnStart (t : Table) (c : ℕ) : ℕ := ((List.range c).map (fun j => width t j+1)).sum

/-- Where the text of a cell begins: flush left or flush right in its column. -/
def textStart (t : Table) (c : ℕ) (e : Text) : ℕ :=
  columnStart t c+indent (colInfo t c).justify (width t c) e

/-- The line shows the cells of the row in their columns, and blanks elsewhere. -/
structure Shows (t : Table) (row : Row) (shown : Text) : Prop where
  fits : ∀ c e, row[c]? = some e → e.length ≤ width t c
  text : ∀ c e, row[c]? = some e → (shown.drop (textStart t c e)).take e.length = e
  blank : ∀ k x, shown[k]? = some x → (∀ c e, row[c]? = some e →
    k < textStart t c e ∨ textStart t c e+e.length ≤ k) → x = ' '
  ends : row ≠ [] → shown.length+1 = columnStart t row.length
  empty : row = [] → shown = []

section Row
variable {t : Table} {row : Row} (hrow : row ∈ t.rows)
include hrow

lemma length_rowFields {c : ℕ} {f : Text} (hf : (rowFields t row)[c]? = some f) :
    f.length = width t c := by
  rw [rowFields_getElem?] at hf
  obtain ⟨e,he,rfl⟩ := Option.map_eq_some_iff.mp hf
  exact length_field _ (widths_cell hrow he).2

/-- The fields of a row begin where their columns do. -/
lemma offset_rowFields {c : ℕ} (hc : c ≤ row.length) :
    offset (rowFields t row) c = columnStart t c := by
  have hlen : (rowFields t row).length = row.length := by
    rw [rowFields,List.length_map,List.length_zipIdx]
  rw [offset,columnStart]
  congr 1
  refine List.ext_getElem (by simp [hlen,hc]) (fun j hj hj' => ?_)
  rw [List.getElem_map,List.getElem_map,List.getElem_take,List.getElem_range]
  have hj'' : j < (rowFields t row).length := by
    rw [List.length_map,List.length_range] at hj'
    omega
  rw [length_rowFields hrow (List.getElem?_eq_getElem hj'')]

lemma rowLine_field {c : ℕ} {e : Text} (he : row[c]? = some e) :
    ((rowLine t row).drop (columnStart t c)).take (width t c) =
      field (colInfo t c).justify (width t c) e := by
  have hf : (rowFields t row)[c]? = some (field (colInfo t c).justify (width t c) e) := by
    rw [rowFields_getElem?,he]
    rfl
  have hfield : ((rowLine t row).drop (offset (rowFields t row) c)).take
      (field (colInfo t c).justify (width t c) e).length =
        field (colInfo t c).justify (width t c) e := joined_field hf
  have hc := (List.getElem?_eq_some_iff.mp he).1
  rwa [offset_rowFields hrow hc.le,length_rowFields hrow hf] at hfield

lemma rowLine_text {c : ℕ} {e : Text} (he : row[c]? = some e) :
    ((rowLine t row).drop (textStart t c e)).take e.length = e := by
  have hroom := indent_le (colInfo t c).justify (widths_cell hrow he).2
  calc
    ((rowLine t row).drop (textStart t c e)).take e.length =
        ((((rowLine t row).drop (columnStart t c)).take (width t c)).drop
          (indent (colInfo t c).justify (width t c) e)).take e.length := by
      rw [textStart,← List.drop_drop,List.drop_take,List.take_take,min_eq_left (by omega)]
    _ = e := by rw [rowLine_field hrow he,field_text]

lemma rowLine_blank {k : ℕ} {x : Char} (hx : (rowLine t row)[k]? = some x)
    (hoff : ∀ c e, row[c]? = some e → k < textStart t c e ∨ textStart t c e+e.length ≤ k) :
    x = ' ' := by
  rcases joined_other hx with hblank | ⟨c,f,hf,hle,hfx⟩
  · exact hblank
  · rw [rowFields_getElem?] at hf
    obtain ⟨e,he,rfl⟩ := Option.map_eq_some_iff.mp hf
    have hc := (List.getElem?_eq_some_iff.mp he).1
    rw [offset_rowFields hrow hc.le] at hle hfx
    refine field_blank hfx ?_
    have hk := hoff c e he
    rw [textStart] at hk
    omega

lemma rowLine_shows : Shows t row (rowLine t row) where
  fits _ _ he := (widths_cell hrow he).2
  text _ _ he := rowLine_text hrow he
  blank _ _ hx hoff := rowLine_blank hrow hx hoff
  ends hne := by
    have hfields : rowFields t row ≠ [] := by simpa [rowFields] using hne
    have hlen : (rowFields t row).length = row.length := by
      rw [rowFields,List.length_map,List.length_zipIdx]
    rw [rowLine,length_joined hfields,hlen,offset_rowFields hrow le_rfl]
  empty hnil := by
    rw [hnil]
    rfl

end Row

/-- A table with rows of its own prints one line for each of them, with every cell in its column,
exactly if every column wider than an `int` can say needs no padding. -/
theorem str_shows_iff (t : Table) :
    (∃ lines, str t = .ok (lines.flatMap (· ++ ['\n'])) ∧ List.Forall₂ (Shows t) t.rows lines) ↔
      ∀ row ∈ t.rows, ∀ c e, row[c]? = some e → width t c < 2^31 ∨ e.length = width t c := by
  constructor
  · rintro ⟨lines,hlines,-⟩
    by_contra h
    obtain ⟨error,herror⟩ := str_error (t := t) h
    rw [herror] at hlines
    cases hlines
  · intro h
    refine ⟨t.rows.map (rowLine t),str_ok h,List.forall₂_map_right_iff.mpr ?_⟩
    exact List.forall₂_same.mpr (fun row hrow => rowLine_shows hrow)

example : str (setColInfo (newRow (newRow {} [['a'],['b']]) [['x','x','x'],['x','x','x']]) 0
    ⟨.right⟩) = .ok "  a b  \nxxx xxx\n".toList := by decide

/-- A long cell above a short one. -/
def wideTable (n : ℕ) : Table := { rows := [[List.replicate n 'a'],[['b']]] }

lemma width_wideTable (n : ℕ) : width (wideTable n) 0 = max n 1 := by
  simp [width,column,wideTable,getSizes]

/-- A column of 2^31 bytes: the width becomes negative, and the shorter cell is not padded. -/
theorem str_wide_column : ¬ ∀ t : Table,
    ∃ lines, str t = .ok (lines.flatMap (· ++ ['\n'])) ∧ List.Forall₂ (Shows t) t.rows lines := by
  intro h
  obtain ⟨lines,hlines,-⟩ := h (wideTable (2^31))
  have hfit : ¬ CellsFit (wideTable (2^31)) := by
    intro hcells
    have hrow := hcells [['b']] (List.mem_cons_of_mem _ List.mem_cons_self) 0 ['b'] rfl
    rw [width_wideTable] at hrow
    have hwide := le_max_left (2^31) 1
    rcases hrow with hlt | hlen
    · exact absurd hwide (not_le.mpr hlt)
    · rw [← hlen] at hwide
      exact absurd hwide (by decide)
  obtain ⟨error,herror⟩ := str_error hfit
  rw [herror] at hlines
  cases hlines

end UarchBench.Tabular
