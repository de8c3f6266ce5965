import UarchBench.Base.Histories
import UarchBench.Util.Table

/-! Tables as objects with addresses. Each row keeps the address of the table that made it, also
when its table is copied or moved, which takes the rows as they are. -/
namespace UarchBench.Tabular
open Base Util

/-- A row with its pointer `table_`. -/
structure RowObject where
  table : ℕ
  elems : Row
  deriving DecidableEq, Repr

structure TableObject where
  rows : List RowObject := []
  colinfo : List ColInfo := []
  deriving DecidableEq, Repr

/-- The tables that exist, by their addresses. -/
abbrev Objects := ℕ → Option TableObject

/-- The rows and the column settings of a table itself. -/
def TableObject.own (t : TableObject) : Table := ⟨t.rows.map RowObject.elems,t.colinfo⟩

/-- What a program does with tables; the first address is that of the table that changes. -/
inductive Op
  | construct (a : ℕ)
  | copyConstruct (a source : ℕ)
  | moveConstruct (a source : ℕ)
  | copyAssign (a source : ℕ)
  | moveAssign (a source : ℕ)
  | destroy (a : ℕ)
  | newRow (a : ℕ)
  /-- `add` for one of the rows, through a reference. -/
  | add (a row : ℕ) (elem : Text)
  | setColInfo (a col : ℕ) (info : ColInfo)
  deriving DecidableEq, Repr

/-- One operation. There is no result if it constructs a table in the place of another one, or uses
a table or a row that does not exist. Vectors that have been moved from are empty. -/
def step (objs : Objects) : Op → Option Objects
  | .construct a =>
    if (objs a).isSome then none else some (Function.update objs a (some {}))
  | .copyConstruct a source => do
    let t ← objs source
    if (objs a).isSome then none else some (Function.update objs a (some t))
  | .moveConstruct a source => do
    let t ← objs source
    if (objs a).isSome then none
    else some (Function.update (Function.update objs a (some t)) source (some {}))
  | .copyAssign a source => do
    let t ← objs source
    if (objs a).isNone then none else some (Function.update objs a (some t))
  | .moveAssign a source => do
    let t ← objs source
    if (objs a).isNone then none
    else some (Function.update (Function.update objs a (some t)) source (some {}))
  | .destroy a => do
    let _ ← objs a
    some (Function.update objs a none)
  | .newRow a => do
    let t ← objs a
    some (Function.update objs a (some {t with rows := t.rows ++ [⟨a,[]⟩]}))
  | .add a row elem => do
    let t ← objs a
    if row < t.rows.length then
      some (Function.update objs a (some
        {t with rows := t.rows.modify row (fun r => {r with elems := r.elems ++ [elem]})}))
    else none
  | .setColInfo a col info => do
    let t ← objs a
    some (Function.update objs a (some {t with colinfo := (setColInfo t.own col info).colinfo}))

/-- The body of the loop of `Row::str`, which asks the table behind the pointer for the column. -/
def strCellOf (objs : Objects) (table : ℕ) (sizes : List ℕ) (s : Text × Bool) (cell : Text × ℕ) :
    Except String (Text × Bool) :=
  match sizes[cell.2]? with
  | none => .error "c < sizes.size()"
  | some w =>
    match objs table with
    | none => .error "table_ has been destroyed"
    | some t => do
      let field ← justify (colInfo t.own cell.2) cell.1 w
      return ((if s.2 then s.1 else s.1 ++ [' ']) ++ field,false)

/-- `Row::str`. -/
def rowStrOf (objs : Objects) (os : Text) (row : RowObject) (sizes : List ℕ) :
    Except String Text := do
  let s ← row.elems.zipIdx.foldlM (strCellOf objs row.table sizes) (os,true)
  return s.1

/-- The body of the loop that prints the rows. -/
def strRowOf (objs : Objects) (maxSizes : List ℕ) (ss : Text) (r : RowObject) :
    Except String Text := do
  return (← rowStrOf objs ss r maxSizes) ++ ['\n']

/-- `Table::str`. -/
def strOf (objs : Objects) (t : TableObject) : Except String Text := do
  let maxSizes ← t.rows.foldlM (fun sizes r => growRow sizes r.elems) []
  t.rows.foldlM (strRowOf objs maxSizes) []

/-- Every row refers to the table that holds it. -/
def RowsOwn (objs : Objects) : Prop := ∀ a t, objs a = some t → ∀ r ∈ t.rows, r.table = a

/-- Every row refers to the table that holds it, and the text of a table depends on nothing but its
own rows and settings. -/
def SelfContained (objs : Objects) : Prop := ∀ a t, objs a = some t →
  (∀ r ∈ t.rows, r.table = a) ∧ strOf objs t = str t.own

/-- The operation does not take rows to another table. -/
def Op.TakesNoRows (objs : Objects) : Op → Prop
  | copyConstruct a source | moveConstruct a source | copyAssign a source
  | moveAssign a source => a = source ∨ ∀ t, objs source = some t → t.rows = []
  | _ => True

lemma strCellOf_own {objs : Objects} {a : ℕ} {t : TableObject} (h : objs a = some t)
    (sizes : List ℕ) : strCellOf objs a sizes = strCell t.own sizes := by
  funext s cell
  rw [strCellOf,strCell]
  cases sizes[cell.2]? with
  | none => rfl
  | some w =>
    dsimp only
    rw [h]

/-- With its rows referring to itself, a table prints what it holds. -/
theorem strOf_own {objs : Objects} {a : ℕ} {t : TableObject} (h : objs a = some t)
    (hrows : ∀ r ∈ t.rows, r.table = a) : strOf objs t = str t.own := by
  have hprint : ∀ maxSizes, ∀ r ∈ t.rows, ∀ ss,
      strRowOf objs maxSizes ss r = strRow t.own maxSizes ss r.elems := by
    intro maxSizes r hr ss
    rw [strRowOf,strRow,rowStrOf,rowStr,hrows r hr,strCellOf_own h]
  rw [strOf,str,TableObject.own,List.foldlM_map]
  refine congrArg (_ >>= ·) (funext fun maxSizes => ?_)
  rw [List.foldlM_map]
  exact foldlM_congr (hprint maxSizes) []

lemma selfContained_iff (objs : Objects) : SelfContained objs ↔ RowsOwn objs :=
  ⟨fun h a t ht => (h a t ht).1,fun h a t ht => ⟨h a t ht,strOf_own ht (h a t ht)⟩⟩

/-- A table is put at an address. -/
lemma rowsOwn_update {objs : Objects} (h : RowsOwn objs) (a : ℕ) (o : Option TableObject) :
    RowsOwn (Function.update objs a o) ↔ ∀ t, o = some t → ∀ r ∈ t.rows, r.table = a := by
  constructor
  · intro hown t ht
    exact hown a t (by rw [Function.update_self,ht])
  · intro ho b t ht
    by_cases hb : b = a
    · subst hb
      rw [Function.update_self] at ht
      exact ho t ht
    · rw [Function.update_of_ne hb] at ht
      exact h b t ht

/-- The rows of a table also belong to another address only if there are none. -/
lemma rows_at_iff {objs : Objects} (h : RowsOwn objs) {a source : ℕ} {t : TableObject}
    (ht : objs source = some t) : (∀ r ∈ t.rows, r.table = a) ↔ a = source ∨ t.rows = [] := by
  constructor
  · intro hrows
    by_cases hnil : t.rows = []
    · exact Or.inr hnil
    · obtain ⟨r,hr⟩ := List.exists_mem_of_ne_nil _ hnil
      exact Or.inl ((hrows r hr).symm.trans (h source t ht r hr))
  · rintro (rfl | hnil)
    · exact h a t ht
    · rw [hnil]
      exact List.forall_mem_nil _

section Step
variable {objs objs' : Objects} (h : RowsOwn objs) {a source : ℕ} {t : TableObject}
include h

lemma rowsOwn_copied_iff (ht : objs source = some t) :
    RowsOwn (Function.update objs a (some t)) ↔ a = source ∨ t.rows = [] := by
  rw [rowsOwn_update h,← rows_at_iff h ht]
  constructor
  · exact fun hrows => hrows t rfl
  · rintro hrows t' ⟨rfl⟩
    exact hrows

lemma rowsOwn_empty (a : ℕ) : RowsOwn (Function.update objs a (some {})) := by
  rw [rowsOwn_update h]
  rintro t ⟨rfl⟩
  exact List.forall_mem_nil _

lemma rowsOwn_moved_iff (ht : objs source = some t) :
    RowsOwn (Function.update (Function.update objs a (some t)) source (some {})) ↔
      a = source ∨ t.rows = [] := by
  by_cases ha : a = source
  · subst ha
    rw [Function.update_idem]
    exact iff_of_true (rowsOwn_empty h a) (Or.inl rfl)
  · rw [Function.update_comm ha,rowsOwn_update (rowsOwn_empty h source),← rows_at_iff h ht]
    constructor
    · exact fun hrows => hrows t rfl
    · rintro hrows t' ⟨rfl⟩
      exact hrows

/-- A table is changed in its place. -/
lemma rowsOwn_changed {t' : TableObject} (hrows : ∀ r ∈ t'.rows, r.table = a) :
    RowsOwn (Function.update objs a (some t')) := by
  rw [rowsOwn_update h]
  rintro t ⟨rfl⟩
  exact hrows

omit h in
lemma forall_mem_modify {rows : List RowObject} {f : RowObject → RowObject} {p : RowObject → Prop}
    (hp : ∀ r ∈ rows, p r) (hf : ∀ r, p r → p (f r)) (i : ℕ) : ∀ r ∈ rows.modify i f, p r := by
  induction rows generalizing i with
  | nil => cases i <;> exact fun r hr => absurd hr List.not_mem_nil
  | cons first rows ih =>
    obtain ⟨hfirst,hrows⟩ := List.forall_mem_cons.mp hp
    cases i with
    | zero => exact List.forall_mem_cons.mpr ⟨hf first hfirst,hrows⟩
    | succ i => exact List.forall_mem_cons.mpr ⟨hfirst,ih hrows i⟩

/-- Exactly the operations that take rows to another table give it rows that refer elsewhere. -/
theorem step_rowsOwn_iff {op : Op} (hop : step objs op = some objs') :
    RowsOwn objs' ↔ op.TakesNoRows objs := by
  have htakes : ∀ {a source t}, objs source = some t →
      ((a = source ∨ ∀ t, objs source = some t → t.rows = []) ↔ a = source ∨ t.rows = []) := by
    intro a source t ht
    simp [ht]
  cases op with
  | construct a =>
    rw [step] at hop
    split_ifs at hop
    obtain rfl := Option.some.inj hop
    exact iff_of_true (rowsOwn_empty h a) trivial
  | copyConstruct a source | copyAssign a source =>
    obtain ⟨t,ht,hop⟩ := Option.bind_eq_some_iff.mp hop
    split_ifs at hop
    obtain rfl := Option.some.inj hop
    rw [rowsOwn_copied_iff h ht]
    exact (htakes ht).symm
  | moveConstruct a source | moveAssign a source =>
    obtain ⟨t,ht,hop⟩ := Option.bind_eq_some_iff.mp hop
    split_ifs at hop
    obtain rfl := Option.some.inj hop
    rw [rowsOwn_moved_iff h ht]
    exact (htakes ht).symm
  | destroy a =>
    obtain ⟨t,ht,hop⟩ := Option.bind_eq_some_iff.mp hop
    obtain rfl := Option.some.inj hop
    exact iff_of_true ((rowsOwn_update h a none).mpr (fun t ht => nomatch ht)) trivial
  | newRow a =>
    obtain ⟨t,ht,hop⟩ := Option.bind_eq_some_iff.mp hop
    obtain rfl := Option.some.inj hop
    exact iff_of_true (rowsOwn_changed h
      (List.forall_mem_append.mpr ⟨h a t ht,List.forall_mem_singleton.mpr rfl⟩)) trivial
  | add a row elem =>
    obtain ⟨t,ht,hop⟩ := Option.bind_eq_some_iff.mp hop
    split_ifs at hop
    obtain rfl := Option.some.inj hop
    refine iff_of_true (rowsOwn_changed h ?_) trivial
    exact forall_mem_modify (f := fun r => {r with elems := r.elems ++ [elem]}) (h a t ht)
      (fun _ hr => hr) row
  | setColInfo a col info =>
    obtain ⟨t,ht,hop⟩ := Option.bind_eq_some_iff.mp hop
    obtain rfl := Option.some.inj hop
    exact iff_of_true (rowsOwn_changed h (h a t ht)) trivial

end Step

/-- Before the first table. -/
def noTables : Objects := fun _ => none

/-- In a history of tables, all of them always stand for themselves exactly if no rows are copied or
moved to another table. -/
theorem tables_selfContained_iff (ops : List Op) :
    (∀ before objs, before <+: ops → ran step noTables before = some objs →
      SelfContained objs) ↔
    ∀ before op objs objs', before ++ [op] <+: ops → ran step noTables before = some objs →
      step objs op = some objs' → op.TakesNoRows objs := by
  have hstart : RowsOwn noTables := fun a t ht => nomatch ht
  simp only [selfContained_iff]
  exact histories_iff hstart (fun objs op objs' h hop => step_rowsOwn_iff h hop) ops

/-- A table of two rows, and a copy of it. -/
def copyTable : List Op :=
  [.construct 1,.newRow 1,.add 1 0 ['a'],.newRow 1,.add 1 1 ['x','x','x'],.copyConstruct 2 1]

/-- The copy. -/
def copied : TableObject := { rows := [⟨1,[['a']]⟩,⟨1,[['x','x','x']]⟩] }

/-- The copy keeps its rows and settings, but its text follows the settings of the table it was
copied from, and it has none when that table is gone. -/
theorem copied_table_follows_source :
    (∃ objs, ran step noTables copyTable = some objs ∧ ¬ SelfContained objs ∧
      objs 2 = some copied ∧ strOf objs copied = .ok "a  \nxxx\n".toList) ∧
    (∃ objs, ran step noTables (copyTable ++ [.setColInfo 1 0 ⟨.right⟩]) = some objs ∧
      objs 2 = some copied ∧ strOf objs copied = .ok "  a\nxxx\n".toList) ∧
    ∃ objs, ran step noTables (copyTable ++ [.destroy 1]) = some objs ∧
      objs 2 = some copied ∧ strOf objs copied = .error "table_ has been destroyed" := by
  refine ⟨⟨_,rfl,fun h => ?_,rfl,by decide⟩,⟨_,rfl,rfl,by decide⟩,⟨_,rfl,rfl,by decide⟩⟩
  exact absurd ((h 2 copied rfl).1 ⟨1,[['a']]⟩ List.mem_cons_self) (by decide)

end UarchBench.Tabular
