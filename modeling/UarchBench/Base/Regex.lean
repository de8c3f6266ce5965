import Mathlib.Computability.Language

/-! Regular expressions as backtracking programs: a run returns the ways in which an expression
matches from a position on, the preferred one first. Without assertions the ways are those of the
regular language of the expression. -/
namespace UarchBench.Base

inductive Regex where
  | empty
  | set (chars : Char → Bool)
  | atStart
  | atEnd
  | boundary (negated : Bool)
  | seq (a b : Regex)
  | alt (a b : Regex)
  | star (a : Regex)

/-- A position in a text: the character before it and what follows it. -/
@[ext] structure Cursor where
  prev : Option Char
  rest : List Char

def isWordChar (c : Char) : Bool := c.isAlphanum || c == '_'

def Cursor.isBoundary (s : Cursor) : Bool := s.prev.any isWordChar != s.rest.head?.any isWordChar

def Cursor.next (chars : Char → Bool) (s : Cursor) : List Cursor :=
  match s.rest with
  | [] => []
  | c::rest => if chars c then [⟨some c,rest⟩] else []

/-- Greedy repetition; an iteration that consumes nothing is not repeated. -/
def repeated (body : Cursor → List Cursor) : ℕ → Cursor → List Cursor
  | 0, s => [s]
  | fuel+1, s =>
    ((body s).filter (fun t => t.rest.length < s.rest.length)).flatMap (repeated body fuel) ++ [s]

def Regex.run : Regex → Cursor → List Cursor
  | empty, s => [s]
  | set chars, s => s.next chars
  | atStart, s => if s.prev.isNone then [s] else []
  | atEnd, s => if s.rest.isEmpty then [s] else []
  | boundary negated, s => if s.isBoundary != negated then [s] else []
  | seq a b, s => (a.run s).flatMap b.run
  | alt a b, s => a.run s ++ b.run s
  | star a, s => repeated a.run s.rest.length s

/-- `regex_match`: the expression matches the whole text. -/
def regexMatch (r : Regex) (text : List Char) : Bool :=
  (r.run ⟨none,text⟩).any (fun t => t.rest.isEmpty)

/-- The loop of `regex_replace` for an expression that does not match the empty text. -/
def regexReplaceFrom (r : Regex) (format : List Char → List Char) : ℕ → Cursor → List Char
  | 0, s => s.rest
  | fuel+1, s =>
    match (r.run s).find? (fun t => t.rest.length < s.rest.length) with
    | some t =>
      format (s.rest.take (s.rest.length-t.rest.length)) ++ regexReplaceFrom r format fuel t
    | none =>
      match s.rest with
      | [] => []
      | c::rest => c::regexReplaceFrom r format fuel ⟨some c,rest⟩

def regexReplace (text : List Char) (r : Regex) (format : List Char → List Char) : List Char :=
  regexReplaceFrom r format text.length ⟨none,text⟩

lemma Cursor.mem_next {chars : Char → Bool} {s t : Cursor} :
    t ∈ s.next chars ↔ ∃ c, chars c = true ∧ s.rest = c::t.rest ∧ t.prev = some c := by
  unfold Cursor.next
  constructor
  · intro h
    split at h
    · simp at h
    · rename_i c rest hrest
      split_ifs at h with hc
      · obtain rfl := List.mem_singleton.mp h
        exact ⟨c,hc,hrest,rfl⟩
      · simp at h
  · rintro ⟨c,hc,hrest,hprev⟩
    simp [hrest,hc,Cursor.ext_iff,hprev]

/-- A repetition makes one more iteration, which consumes something, or ends. -/
lemma mem_repeated_succ {body : Cursor → List Cursor} {fuel : ℕ} {s t : Cursor} :
    t ∈ repeated body (fuel+1) s ↔
      (∃ m ∈ body s, m.rest.length < s.rest.length ∧ t ∈ repeated body fuel m) ∨ t = s := by
  simp only [repeated,List.mem_append,List.mem_flatMap,List.mem_filter,List.mem_singleton,
    decide_eq_true_eq,and_assoc]

/-- A match is replaced. -/
lemma regexReplaceFrom_match {r : Regex} {s t : Cursor} {ts : List Cursor} (h : r.run s = t::ts)
    (hlt : t.rest.length < s.rest.length) (format : List Char → List Char) (fuel : ℕ) :
    regexReplaceFrom r format (fuel+1) s =
      format (s.rest.take (s.rest.length-t.rest.length)) ++ regexReplaceFrom r format fuel t := by
  have hfind : (t::ts).find? (fun t => t.rest.length < s.rest.length) = some t :=
    List.find?_cons_of_pos (decide_eq_true hlt)
  rw [regexReplaceFrom,h,hfind]

/-- A character at which there is no match is copied. -/
lemma regexReplaceFrom_copy {r : Regex} {prev : Option Char} {c : Char} {rest : List Char}
    (h : r.run ⟨prev,c::rest⟩ = []) (format : List Char → List Char) (fuel : ℕ) :
    regexReplaceFrom r format (fuel+1) ⟨prev,c::rest⟩ =
      c::regexReplaceFrom r format fuel ⟨some c,rest⟩ := by
  rw [regexReplaceFrom,h]
  rfl

/-- A replacement format with `$&` for the match and `$$` for a dollar sign. -/
def expandFormat : List Char → List Char → List Char
  | '$' :: '&' :: format, m => m ++ expandFormat format m
  | '$' :: '$' :: format, m => '$'::expandFormat format m
  | c::format, m => c::expandFormat format m
  | [], _ => []

/-- An expression without assertions. -/
def Regex.Plain : Regex → Prop
  | empty | set _ => True
  | atStart | atEnd | boundary _ => False
  | seq a b | alt a b => a.Plain ∧ b.Plain
  | star a => a.Plain

def Regex.language : Regex → Language Char
  | empty | atStart | atEnd | boundary _ => 1
  | set chars => {w | ∃ c, chars c = true ∧ w = [c]}
  | seq a b => a.language*b.language
  | alt a b => a.language+b.language
  | star a => KStar.kstar a.language

/-- The texts left after the ways of matching are those that a word of the language leaves. -/
def RunsAs (body : Cursor → List Cursor) (words : Language Char) : Prop :=
  ∀ s v, (∃ t ∈ body s, t.rest = v) ↔ ∃ u ∈ words, s.rest = u ++ v

lemma next_runsAs (chars : Char → Bool) :
    RunsAs (fun s => s.next chars) {w | ∃ c, chars c = true ∧ w = [c]} := by
  intro s v
  constructor
  · rintro ⟨t,ht,rfl⟩
    obtain ⟨c,hc,hrest,-⟩ := Cursor.mem_next.mp ht
    exact ⟨[c],⟨c,hc,rfl⟩,hrest⟩
  · rintro ⟨u,⟨c,hc,rfl⟩,hrest⟩
    exact ⟨⟨some c,v⟩,Cursor.mem_next.mpr ⟨c,hc,hrest,rfl⟩,rfl⟩

lemma seq_runsAs {f g : Cursor → List Cursor} {A B : Language Char} (hf : RunsAs f A)
    (hg : RunsAs g B) : RunsAs (fun s => (f s).flatMap g) (A*B) := by
  intro s v
  constructor
  · rintro ⟨t,ht,rfl⟩
    obtain ⟨m,hm,ht⟩ := List.mem_flatMap.mp ht
    obtain ⟨u,hu,hsplit⟩ := (hf s m.rest).mp ⟨m,hm,rfl⟩
    obtain ⟨w,hw,hrest⟩ := (hg m t.rest).mp ⟨t,ht,rfl⟩
    exact ⟨u ++ w,Language.append_mem_mul hu hw,by rw [hsplit,hrest,List.append_assoc]⟩
  · rintro ⟨x,hx,hrest⟩
    obtain ⟨u,hu,w,hw,rfl⟩ := Language.mem_mul.mp hx
    obtain ⟨m,hm,hmrest⟩ := (hf s (w ++ v)).mpr ⟨u,hu,by rw [hrest,List.append_assoc]⟩
    obtain ⟨t,ht,htrest⟩ := (hg m v).mpr ⟨w,hw,hmrest⟩
    exact ⟨t,List.mem_flatMap.mpr ⟨m,hm,ht⟩,htrest⟩

lemma alt_runsAs {f g : Cursor → List Cursor} {A B : Language Char} (hf : RunsAs f A)
    (hg : RunsAs g B) : RunsAs (fun s => f s ++ g s) (A+B) := by
  intro s v
  simp only [List.mem_append,or_and_right,exists_or,hf s v,hg s v,Language.mem_add]

/-- Repetition with fuel for every character that is left. -/
lemma repeated_runsAs {f : Cursor → List Cursor} {A : Language Char} (hf : RunsAs f A) (fuel : ℕ)
    (s : Cursor) (hfuel : s.rest.length ≤ fuel) (v : List Char) :
    (∃ t ∈ repeated f fuel s, t.rest = v) ↔ ∃ u ∈ KStar.kstar A, s.rest = u ++ v := by
  induction fuel generalizing s with
  | zero =>
    have hnil : s.rest = [] := List.length_eq_zero_iff.mp (Nat.le_zero.mp hfuel)
    constructor
    · rintro ⟨t,ht,rfl⟩
      rw [repeated,List.mem_singleton] at ht
      exact ⟨[],Language.nil_mem_kstar A,by rw [ht]; rfl⟩
    · rintro ⟨u,-,hu⟩
      rw [hnil] at hu
      have hv : v = [] := (List.append_eq_nil_iff.mp hu.symm).2
      exact ⟨s,List.mem_singleton_self s,by rw [hnil,hv]⟩
  | succ fuel ih =>
    simp only [mem_repeated_succ]
    constructor
    · rintro ⟨t,⟨m,hm,hlt,ht⟩ | rfl,rfl⟩
      · obtain ⟨u,hu,hsplit⟩ := (hf s m.rest).mp ⟨m,hm,rfl⟩
        obtain ⟨w,hw,hrest⟩ := (ih m (by omega)).mp ⟨t,ht,rfl⟩
        refine ⟨u ++ w,?_,by rw [hsplit,hrest,List.append_assoc]⟩
        rw [← Language.one_add_self_mul_kstar_eq_kstar,Language.mem_add]
        exact Or.inr (Language.append_mem_mul hu hw)
      · exact ⟨[],Language.nil_mem_kstar A,rfl⟩
    · rintro ⟨x,hx,hrest⟩
      obtain ⟨ws,rfl,hws⟩ := Language.mem_kstar_iff_exists_nonempty.mp hx
      cases ws with
      | nil => exact ⟨s,Or.inr rfl,hrest⟩
      | cons u ws =>
        obtain ⟨hu,hne⟩ := hws u List.mem_cons_self
        rw [List.flatten_cons,List.append_assoc] at hrest
        obtain ⟨m,hm,hmrest⟩ := (hf s (ws.flatten ++ v)).mpr ⟨u,hu,hrest⟩
        have hlt : m.rest.length < s.rest.length := by
          have := List.length_pos_iff.mpr hne
          simp only [hrest,hmrest,List.length_append]
          omega
        obtain ⟨t,ht,htrest⟩ := (ih m (by omega)).mpr
          ⟨ws.flatten,Language.mem_kstar_iff_exists_nonempty.mpr
            ⟨ws,rfl,fun y hy => hws y (List.mem_cons_of_mem _ hy)⟩,hmrest⟩
        exact ⟨t,Or.inl ⟨m,hm,hlt,ht⟩,htrest⟩

theorem Regex.run_runsAs {r : Regex} (h : r.Plain) : RunsAs r.run r.language := by
  induction r with
  | empty =>
    intro s v
    simp [Regex.run,Regex.language,Language.mem_one,eq_comm]
  | set chars => exact next_runsAs chars
  | atStart | atEnd | boundary => exact absurd h id
  | seq a b iha ihb => exact seq_runsAs (iha h.1) (ihb h.2)
  | alt a b iha ihb => exact alt_runsAs (iha h.1) (ihb h.2)
  | star a ih => exact fun s v => repeated_runsAs (ih h) s.rest.length s le_rfl v

/-- A match of the whole text is membership in the language. -/
theorem regexMatch_iff {r : Regex} (h : r.Plain) (text : List Char) :
    regexMatch r text = true ↔ text ∈ r.language := by
  have hrun := Regex.run_runsAs h ⟨none,text⟩ []
  simp only [List.append_nil] at hrun
  rw [regexMatch,List.any_eq_true]
  simp only [List.isEmpty_iff,hrun]
  exact ⟨fun ⟨u,hu,htext⟩ => htext ▸ hu,fun htext => ⟨text,htext,rfl⟩⟩

end UarchBench.Base
