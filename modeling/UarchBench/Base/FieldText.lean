import Mathlib.Data.List.Basic
import Mathlib.Data.List.Nodup
import Mathlib.Data.Nat.Init

/-! Fields written one after the other, each with its name, a mark, its value and a separator.
Those with the default value are left out. The text determines all values, since no name contains
the mark and no value the separator. -/
namespace UarchBench.Base

/-- A text is determined up to the first mark. -/
lemma append_mark_inj {α : Type} {mark : α} {a b x y : List α} (ha : mark ∉ a) (hb : mark ∉ b)
    (h : a ++ mark::x = b ++ mark::y) : a = b ∧ x = y := by
  induction a generalizing b with
  | nil =>
    cases b with
    | nil => exact ⟨rfl,(List.cons.inj h).2⟩
    | cons d b => exact absurd (List.cons.inj h).1 (List.ne_of_not_mem_cons hb)
  | cons c a ih =>
    cases b with
    | nil => exact absurd (List.cons.inj h).1.symm (List.ne_of_not_mem_cons ha)
    | cons d b =>
      obtain ⟨rfl,htail⟩ := List.cons.inj h
      obtain ⟨rfl,hxy⟩ := ih (List.not_mem_of_not_mem_cons ha) (List.not_mem_of_not_mem_cons hb)
        htail
      exact ⟨rfl,hxy⟩

section Digits
variable {b : ℕ}

lemma digitChar_inj {d e : ℕ} (hd : d < 16) (he : e < 16) (h : Nat.digitChar d = Nat.digitChar e) :
    d = e := by
  have hall : ∀ d < 16, ∀ e < 16, Nat.digitChar d = Nat.digitChar e → d = e := by decide
  exact hall d hd e he h

theorem toDigits_inj (hb : 1 < b) (hb' : b ≤ 16) {m n : ℕ}
    (h : Nat.toDigits b m = Nat.toDigits b n) : m = n := by
  induction m using Nat.strong_induction_on generalizing n with
  | _ m ih =>
    rw [Nat.toDigits_eq_if hb (n := m),Nat.toDigits_eq_if hb (n := n)] at h
    have hm := Nat.mod_lt m (Nat.zero_lt_of_lt hb)
    have hn := Nat.mod_lt n (Nat.zero_lt_of_lt hb)
    split_ifs at h with hsmall hsmall' hsmall'
    · exact digitChar_inj (by omega) (by omega) (List.singleton_inj.mp h)
    · have hlen := congrArg List.length h
      have hpos := Nat.length_toDigits_pos (b := b) (n := n/b)
      rw [List.length_append,List.length_singleton,List.length_singleton] at hlen
      omega
    · have hlen := congrArg List.length h
      have hpos := Nat.length_toDigits_pos (b := b) (n := m/b)
      rw [List.length_append,List.length_singleton,List.length_singleton] at hlen
      omega
    · obtain ⟨hfront,hlast⟩ := List.append_inj' h rfl
      have hdiv := ih (m/b) (Nat.div_lt_self (by omega) hb) hfront
      have hmod := digitChar_inj (by omega) (by omega) (List.singleton_inj.mp hlast)
      rw [← Nat.div_add_mod m b,← Nat.div_add_mod n b,hdiv,hmod]

lemma mem_toDigits (hb : 1 < b) {n : ℕ} {c : Char} (h : c ∈ Nat.toDigits b n) :
    ∃ d < b, c = Nat.digitChar d := by
  induction n using Nat.strong_induction_on with
  | _ n ih =>
    rw [Nat.toDigits_eq_if hb] at h
    split_ifs at h with hsmall
    · exact ⟨n,hsmall,List.mem_singleton.mp h⟩
    · rcases List.mem_append.mp h with h | h
      · exact ih (n/b) (Nat.div_lt_self (by omega) hb) h
      · exact ⟨n%b,Nat.mod_lt n (by omega),List.mem_singleton.mp h⟩

end Digits

section Fields
variable {α β : Type} [DecidableEq β] (mark sep : α) (default : β) (render : β → List α)

def fieldText (field : List α × β) : List α :=
  if field.2 = default then [] else field.1 ++ mark::(render field.2 ++ [sep])

def fieldsText (fields : List (List α × β)) : List α :=
  fields.flatMap (fieldText mark sep default render)

variable {mark sep default render}

lemma fieldsText_cons (field : List α × β) (fields : List (List α × β)) :
    fieldsText mark sep default render (field::fields) =
      fieldText mark sep default render field ++ fieldsText mark sep default render fields :=
  List.flatMap_cons

/-- The text begins with the name of one of the fields. -/
lemma fieldsText_head {fields : List (List α × β)}
    (h : fieldsText mark sep default render fields ≠ []) :
    ∃ field ∈ fields, ∃ rest,
      fieldsText mark sep default render fields = field.1 ++ mark::rest := by
  induction fields with
  | nil => exact absurd rfl h
  | cons field fields ih =>
    rw [fieldsText_cons,fieldText] at h ⊢
    by_cases hdefault : field.2 = default
    · rw [if_pos hdefault,List.nil_append] at h ⊢
      obtain ⟨other,hother,hrest⟩ := ih h
      exact ⟨other,List.mem_cons_of_mem field hother,hrest⟩
    · rw [if_neg hdefault]
      exact ⟨field,List.mem_cons_self,_,by rw [List.append_assoc,List.cons_append]⟩

/-- A field that is written is not mistaken for a later one. -/
lemma fieldText_ne_later {name : List α} {fields : List (List α × β)}
    (hmark : ∀ n ∈ name::fields.map Prod.fst, mark ∉ n) (hname : name ∉ fields.map Prod.fst)
    (rest : List α) : name ++ mark::rest ≠ fieldsText mark sep default render fields := by
  intro h
  have hne : fieldsText mark sep default render fields ≠ [] := by
    rw [← h]
    exact List.append_ne_nil_of_right_ne_nil _ (List.cons_ne_nil _ _)
  obtain ⟨field,hfield,tail,htail⟩ := fieldsText_head hne
  have hmem := List.mem_map_of_mem (f := Prod.fst) hfield
  rw [htail] at h
  have hsame := (append_mark_inj (hmark name List.mem_cons_self)
    (hmark field.1 (List.mem_cons_of_mem name hmem)) h).1
  exact hname (hsame ▸ hmem)

/-- The text determines the fields, given their names. -/
theorem fieldsText_inj (hrender : Function.Injective render) (hsep : ∀ v, sep ∉ render v)
    {fields fields' : List (List α × β)} (hnames : fields.map Prod.fst = fields'.map Prod.fst)
    (hnodup : (fields.map Prod.fst).Nodup) (hmark : ∀ n ∈ fields.map Prod.fst, mark ∉ n)
    (h : fieldsText mark sep default render fields = fieldsText mark sep default render fields') :
    fields = fields' := by
  induction fields generalizing fields' with
  | nil => exact (List.map_eq_nil_iff.mp hnames.symm).symm
  | cons field fields ih =>
    cases fields' with
    | nil => cases hnames
    | cons field' fields' =>
      obtain ⟨name,v⟩ := field
      obtain ⟨name',v'⟩ := field'
      simp only [List.map_cons,List.cons.injEq] at hnames
      obtain ⟨rfl,hnames⟩ := hnames
      obtain ⟨hname,hnodup⟩ := List.nodup_cons.mp hnodup
      have hmark' := fun n hn => hmark n (List.mem_cons_of_mem name hn)
      have hname' := hnames ▸ hname
      rw [fieldsText_cons,fieldsText_cons,fieldText,fieldText] at h
      dsimp only at h
      split_ifs at h with hv hv' hv'
      · rw [hv,hv',ih hnames hnodup hmark' h]
      · rw [List.nil_append,List.append_assoc] at h
        exact absurd h.symm (fieldText_ne_later hmark hname _)
      · rw [List.nil_append,List.append_assoc] at h
        exact absurd h (fieldText_ne_later (hnames ▸ hmark) hname' _)
      · simp only [List.append_assoc,List.cons_append,List.append_cancel_left_eq,
          List.cons.injEq,true_and,List.nil_append] at h
        obtain ⟨hvalue,hrest⟩ := append_mark_inj (hsep v) (hsep v') h
        rw [hrender hvalue,ih hnames hnodup hmark' hrest]

lemma mem_fieldsText {fields : List (List α × β)} {c : α}
    (h : c ∈ fieldsText mark sep default render fields) :
    ∃ field ∈ fields, c ∈ field.1 ∨ c = mark ∨ c ∈ render field.2 ∨ c = sep := by
  obtain ⟨field,hfield,hc⟩ := List.mem_flatMap.mp h
  rw [fieldText] at hc
  split_ifs at hc
  · exact absurd hc List.not_mem_nil
  · exact ⟨field,hfield,by simpa using hc⟩

lemma fieldsText_eq_nil {fields : List (List α × β)} :
    fieldsText mark sep default render fields = [] ↔ ∀ field ∈ fields, field.2 = default := by
  rw [fieldsText,List.flatMap_eq_nil_iff]
  refine forall₂_congr fun field _ => ?_
  rw [fieldText]
  split_ifs with h
  · exact iff_of_true rfl h
  · exact iff_of_false (List.append_ne_nil_of_right_ne_nil _ (List.cons_ne_nil _ _)) h

/-- A text that is not empty ends with a separator. -/
lemma fieldsText_getLast {fields : List (List α × β)}
    (h : fieldsText mark sep default render fields ≠ []) :
    ∃ front, fieldsText mark sep default render fields = front ++ [sep] := by
  induction fields with
  | nil => exact absurd rfl h
  | cons field fields ih =>
    rw [fieldsText_cons] at h ⊢
    by_cases hrest : fieldsText mark sep default render fields = []
    · rw [hrest,List.append_nil,fieldText] at h ⊢
      split_ifs at h ⊢
      · exact absurd rfl h
      · exact ⟨field.1 ++ mark::render field.2,by rw [List.append_assoc,List.cons_append]⟩
    · obtain ⟨front,hfront⟩ := ih hrest
      exact ⟨fieldText mark sep default render field ++ front,by rw [hfront,List.append_assoc]⟩

end Fields
end UarchBench.Base
