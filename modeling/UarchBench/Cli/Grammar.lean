import UarchBench.Base.Progress
import UarchBench.Cli.Args
import Mathlib.Data.List.Basic

/-! The command lines that the parser accepts, as long as every flag takes no value or exactly one:
a line is a list of words, and each word uses flags. -/
namespace UarchBench.Args
open Base Util
variable {σ : Type}

/-- A use of a flag on a command line. -/
structure Use (σ : Type) where
  flag : FlagBase σ
  shown : Text
  value : Option Text

def Use.apply (s : σ) (u : Use σ) : Except ArgsError σ := do
  let s ← u.flag.match u.shown s
  u.flag.parseValue u.value.toList s

/-- The characters behind a dash and the argument that follows, if one of them takes it. -/
inductive Shorts (p : ArgumentParser σ) : Text → List Text → List (Use σ) → Prop
  | done : Shorts p [] [] []
  | switch {c : Char} {names : Text} {args : List Text} {uses : List (Use σ)} {flag : FlagBase σ}
      (found : p.findShort c = some flag) (nargs : flag.nargs = ⟨0,0⟩)
      (tail : Shorts p names args uses) : Shorts p (c::names) args (⟨flag,[c],none⟩::uses)
  | joined {c : Char} {value : Text} {flag : FlagBase σ} (found : p.findShort c = some flag)
      (nargs : flag.nargs = ⟨1,1⟩) (nonempty : value ≠ []) :
      Shorts p (c::value) [] [⟨flag,[c],some value⟩]
  | separate {c : Char} {value : Text} {flag : FlagBase σ} (found : p.findShort c = some flag)
      (nargs : flag.nargs = ⟨1,1⟩) : Shorts p [c] [value] [⟨flag,[c],some value⟩]

/-- A word of a command line: one argument, or two if the second is a value. -/
inductive Word (p : ArgumentParser σ) : Text → List Text → List (Use σ) → Prop
  | switch {name : Text} {flag : FlagBase σ} (found : p.findLong name = some flag)
      (nargs : flag.nargs = ⟨0,0⟩) (nonempty : name ≠ []) (plain : '=' ∉ name) :
      Word p ('-' :: '-' :: name) [] [⟨flag,name,none⟩]
  | joined {name value : Text} {flag : FlagBase σ} (found : p.findLong name = some flag)
      (nargs : flag.nargs = ⟨1,1⟩) (plain : '=' ∉ name) :
      Word p ('-' :: '-' :: (name ++ '='::value)) [] [⟨flag,name,some value⟩]
  | separate {name value : Text} {flag : FlagBase σ} (found : p.findLong name = some flag)
      (nargs : flag.nargs = ⟨1,1⟩) (nonempty : name ≠ []) (plain : '=' ∉ name) :
      Word p ('-' :: '-' :: name) [value] [⟨flag,name,some value⟩]
  | shorts {c : Char} {names : Text} {args : List Text} {uses : List (Use σ)} (dash : c ≠ '-')
      (shorts : Shorts p (c::names) args uses) : Word p ('-'::c::names) args uses

/-- A sequence of words. -/
inductive Words (p : ArgumentParser σ) : List Text → List (Use σ) → Prop
  | nil : Words p [] []
  | cons {chunk : Text} {values args : List Text} {uses uses' : List (Use σ)}
      (word : Word p chunk values uses) (tail : Words p args uses') :
      Words p (chunk::(values ++ args)) (uses ++ uses')

/-- A flag of the parser is used with as many values as it takes. -/
def Use.Proper (p : ArgumentParser σ) (u : Use σ) : Prop :=
  u.flag ∈ p.children ∧ (u.flag.nargs = ⟨0,0⟩ ∧ u.value = none ∨
    u.flag.nargs = ⟨1,1⟩ ∧ ∃ value, u.value = some value)

lemma Shorts.proper {p : ArgumentParser σ} {names : Text} {args : List Text} {uses : List (Use σ)}
    (h : Shorts p names args uses) : ∀ u ∈ uses, u.Proper p := by
  induction h with
  | done => simp
  | switch found nargs tail ih =>
    exact List.forall_mem_cons.mpr ⟨⟨List.mem_of_find?_eq_some found,Or.inl ⟨nargs,rfl⟩⟩,ih⟩
  | joined found nargs nonempty =>
    exact List.forall_mem_singleton.mpr
      ⟨List.mem_of_find?_eq_some found,Or.inr ⟨nargs,_,rfl⟩⟩
  | separate found nargs =>
    exact List.forall_mem_singleton.mpr
      ⟨List.mem_of_find?_eq_some found,Or.inr ⟨nargs,_,rfl⟩⟩

lemma Words.proper {p : ArgumentParser σ} {args : List Text} {uses : List (Use σ)}
    (h : Words p args uses) : ∀ u ∈ uses, u.Proper p := by
  induction h with
  | nil => simp
  | cons word tail ih =>
    refine List.forall_mem_append.mpr ⟨?_,ih⟩
    cases word with
    | switch found nargs nonempty plain =>
      exact List.forall_mem_singleton.mpr
        ⟨List.mem_of_find?_eq_some found,Or.inl ⟨nargs,rfl⟩⟩
    | joined found nargs plain | separate found nargs nonempty plain =>
      exact List.forall_mem_singleton.mpr
        ⟨List.mem_of_find?_eq_some found,Or.inr ⟨nargs,_,rfl⟩⟩
    | shorts dash shorts => exact shorts.proper

section Option
variable (children : List (FlagBase σ))

lemma parseOption_long (c : Char) (body : Text) :
    (ArgumentParser.construct children).parseOption ('-' :: '-' :: c::body) = .longFlag := by
  simp [ArgumentParser.parseOption,ArgumentParser.construct,find,findHere]

lemma parseOption_short {c : Char} (h : c ≠ '-') (body : Text) :
    (ArgumentParser.construct children).parseOption ('-'::c::body) = .shortFlag := by
  simp [ArgumentParser.parseOption,ArgumentParser.construct,find,findHere,h.symm]

lemma parseOption_other {s : Text} (h : s.head? ≠ some '-') :
    (ArgumentParser.construct children).parseOption s = .positional := by
  cases s with
  | nil => rfl
  | cons c s =>
    have hc : ¬ '-' = c := fun heq => h (heq ▸ rfl)
    simp [ArgumentParser.parseOption,ArgumentParser.construct,find,findHere,hc]

lemma parseOption_dash :
    (ArgumentParser.construct children).parseOption ['-'] = .positional := rfl

end Option

section Flag
variable (children : List (FlagBase σ)) {flag : FlagBase σ} (arg : Text) (rest : List Text) (s : σ)

lemma parseFlag_switch (h : flag.nargs = ⟨0,0⟩) {joined : Option Text} {discard : Bool}
    (hjoined : joined.isSome → discard = true) :
    (ArgumentParser.construct children).parseFlag flag arg rest true true joined discard s =
      (Use.apply s ⟨flag,arg,none⟩).map (fun s => (s,[])) := by
  have hvalues : (ArgumentParser.construct children).parseArgsValues flag.nargs arg rest true true
      joined discard = .ok [] := by
    rw [h]
    cases joined with
    | none => rfl
    | some value => rw [hjoined rfl]; rfl
  rw [ArgumentParser.parseFlag,hvalues,Use.apply]
  cases flag.match arg s with
  | error e => rfl
  | ok s => cases hvalue : flag.parseValue [] s <;> simp [bind,Except.bind,Except.map,pure,
      Except.pure,hvalue]

lemma parseFlag_value (h : flag.nargs = ⟨1,1⟩) {joined : Option Text} {discard : Bool}
    {value : Text} (hvalue : joined = some value ∨ joined = none ∧ rest.head? = some value) :
    (ArgumentParser.construct children).parseFlag flag arg rest true true joined discard s =
      (Use.apply s ⟨flag,arg,some value⟩).map (fun s => (s,[value])) := by
  have hvalues : (ArgumentParser.construct children).parseArgsValues flag.nargs arg rest true true
      joined discard = .ok [value] := by
    rw [h]
    rcases hvalue with rfl | ⟨rfl,hrest⟩
    · cases discard <;> rfl
    · obtain ⟨rest,rfl⟩ := List.head?_eq_some_iff.mp hrest
      rfl
  rw [ArgumentParser.parseFlag,hvalues,Use.apply]
  cases flag.match arg s with
  | error e => rfl
  | ok s => cases hvalue : flag.parseValue [value] s <;> simp [bind,Except.bind,Except.map,pure,
      Except.pure,hvalue]

end Flag

section Parse
variable {children : List (FlagBase σ)} {rest : List Text} {s s' : σ} {k : ℕ}

lemma bind_map {α β γ : Type} (x : Except ArgsError α) (f : α → β) (g : β → Except ArgsError γ) :
    x.map f >>= g = x >>= fun a => g (f a) := by cases x <;> rfl

lemma longseparator_construct :
    (ArgumentParser.construct children).longseparator = ['='] := rfl

lemma splitLong_plain {name : Text} (h : '=' ∉ name) :
    (ArgumentParser.construct children).splitLong name = (name,none) := by
  have hfind := (find_zero_eq_none_iff '=' name).mpr h
  rw [ArgumentParser.splitLong,longseparator_construct,if_neg (List.cons_ne_nil _ _),hfind]

lemma splitLong_joined {name : Text} (h : '=' ∉ name) (value : Text) :
    (ArgumentParser.construct children).splitLong (name ++ '='::value) = (name,some value) := by
  have hfind : find (name ++ '='::value) ['='] 0 = some name.length := by
    rw [find,if_pos (Nat.zero_le _),List.drop_zero,findHere_append '=' h,Option.map_some,
      Nat.zero_add]
  have hvalue : (name ++ '='::value).drop (name.length+1) = value := by
    rw [← List.drop_drop,List.drop_left]
    rfl
  rw [ArgumentParser.splitLong,longseparator_construct,if_neg (List.cons_ne_nil _ _),hfind]
  exact Prod.ext List.take_left (congrArg some hvalue)

lemma parseLong_eq {chunk name : Text} {joined : Option Text} {flag : FlagBase σ}
    (hsplit : (ArgumentParser.construct children).splitLong chunk = (name,joined))
    (found : (ArgumentParser.construct children).findLong name = some flag) :
    (ArgumentParser.construct children).parseLong ('-' :: '-' :: chunk) rest s =
      (ArgumentParser.construct children).parseFlag flag name rest true true joined false s >>=
        fun r => .ok (r.1,ArgumentParser.taken joined r.2) := by
  have hchunk : ('-' :: '-' :: chunk).drop
      (List.length ( ArgumentParser.longprefix (ArgumentParser.construct children))) = chunk := rfl
  rw [ArgumentParser.parseLong,hchunk,hsplit]
  dsimp only
  rw [found]
  rfl

lemma parseShortFrom_cons {c : Char} {names : Text} {flag : FlagBase σ}
    (found : (ArgumentParser.construct children).findShort c = some flag) :
    (ArgumentParser.construct children).parseShortFrom rest (c::names) s =
      (ArgumentParser.construct children).parseFlag flag [c] rest true true
          (if names = [] then none else some names) (decide (names ≠ [])) s >>= fun r =>
        if r.2 ≠ [] then
          .ok (r.1,ArgumentParser.taken (if names = [] then none else some names) r.2)
        else (ArgumentParser.construct children).parseShortFrom rest names r.1 := by
  rw [ArgumentParser.parseShortFrom,found]
  rfl

/-- The characters of a word, one after the other. -/
lemma parseShortFrom_of_shorts {names : Text} {args : List Text} {uses : List (Use σ)}
    (h : Shorts (ArgumentParser.construct children) names args uses) :
    (ArgumentParser.construct children).parseShortFrom (args ++ rest) names s =
      (uses.foldlM Use.apply s).map (fun s => (s,args.length)) := by
  induction h generalizing s with
  | done => rfl
  | @switch c names args uses flag found nargs tail ih =>
    have hjoined : (if names = [] then none else some names : Option Text).isSome →
        decide (names ≠ []) = true := by
      split_ifs with hnames
      · exact fun h => nomatch h
      · exact fun _ => decide_eq_true hnames
    rw [parseShortFrom_cons found,parseFlag_switch children [c] _ s nargs hjoined,bind_map,
      List.foldlM_cons]
    cases Use.apply s ⟨flag,[c],none⟩ with
    | error e => rfl
    | ok s => exact ih
  | @joined c value flag found nargs nonempty =>
    rw [parseShortFrom_cons found,parseFlag_value children [c] _ s nargs
      (Or.inl (if_neg nonempty)),bind_map,List.foldlM_cons]
    cases Use.apply s ⟨flag,[c],some value⟩ with
    | error e => rfl
    | ok s =>
      rw [if_neg nonempty]
      rfl
  | @separate c value flag found nargs =>
    rw [parseShortFrom_cons found,parseFlag_value children [c] ([value] ++ rest) s nargs
      (Or.inr ⟨if_pos rfl,rfl⟩),bind_map,List.foldlM_cons]
    cases Use.apply s ⟨flag,[c],some value⟩ <;> rfl

lemma parseFrom_long (c : Char) (body : Text) :
    (ArgumentParser.construct children).parseFrom false (('-' :: '-' :: c::body)::rest) s =
      (ArgumentParser.construct children).parseLong ('-' :: '-' :: c::body) rest s >>= fun r =>
        (ArgumentParser.construct children).parseFrom false (rest.drop r.2) r.1 := by
  have hterminator : ¬ (false = false ∧ '-' :: '-' :: c::body =
      (ArgumentParser.construct children).terminator) := by
    simp [ArgumentParser.construct]
  rw [ArgumentParser.parseFrom,if_neg hterminator,if_pos ⟨rfl,parseOption_long children c body⟩]

lemma parseFrom_short {c : Char} (h : c ≠ '-') (body : Text) :
    (ArgumentParser.construct children).parseFrom false (('-'::c::body)::rest) s =
      (ArgumentParser.construct children).parseShortFrom rest (c::body) s >>= fun r =>
        (ArgumentParser.construct children).parseFrom false (rest.drop r.2) r.1 := by
  have hterminator : ¬ (false = false ∧ '-'::c::body =
      (ArgumentParser.construct children).terminator) := by
    simp [ArgumentParser.construct,h]
  have hshort := parseOption_short children h body
  rw [ArgumentParser.parseFrom,if_neg hterminator,
    if_neg (fun hlong => OptionType.noConfusion (hshort.symm.trans hlong.2)),
    if_pos ⟨rfl,hshort⟩]
  rfl

/-- A word at the front of a command line. -/
theorem parseFrom_word {chunk : Text} {values : List Text} {uses : List (Use σ)}
    (h : Word (ArgumentParser.construct children) chunk values uses) :
    (ArgumentParser.construct children).parseFrom false (chunk::(values ++ rest)) s =
      uses.foldlM Use.apply s >>= (ArgumentParser.construct children).parseFrom false rest := by
  cases h with
  | @switch name flag found nargs nonempty plain =>
    obtain ⟨c,name,rfl⟩ := List.exists_cons_of_ne_nil nonempty
    rw [parseFrom_long,parseLong_eq (splitLong_plain plain) found,
      parseFlag_switch children _ _ s nargs Bool.noConfusion,bind_map,List.foldlM_cons]
    cases Use.apply s ⟨flag,c::name,none⟩ <;> rfl
  | @joined name value flag found nargs plain =>
    have hcons : ∃ c body, name ++ '='::value = c::body := by cases name <;> exact ⟨_,_,rfl⟩
    obtain ⟨c,body,hbody⟩ := hcons
    rw [hbody,parseFrom_long,← hbody,parseLong_eq (splitLong_joined plain value) found,
      parseFlag_value children _ _ s nargs (Or.inl rfl),bind_map,List.foldlM_cons]
    cases Use.apply s ⟨flag,name,some value⟩ <;> rfl
  | @separate name value flag found nargs nonempty plain =>
    obtain ⟨c,name,rfl⟩ := List.exists_cons_of_ne_nil nonempty
    rw [parseFrom_long,parseLong_eq (splitLong_plain plain) found,
      parseFlag_value children _ ([value] ++ rest) s nargs (Or.inr ⟨rfl,rfl⟩),bind_map,
      List.foldlM_cons]
    cases Use.apply s ⟨flag,c::name,some value⟩ <;> rfl
  | @shorts c names args uses dash shorts =>
    rw [parseFrom_short dash,parseShortFrom_of_shorts shorts,bind_map]
    refine congrArg _ (funext fun s => ?_)
    rw [List.drop_left]

/-- Words at the front of a command line. -/
theorem parseFrom_words {args : List Text} {uses : List (Use σ)}
    (h : Words (ArgumentParser.construct children) args uses) :
    (ArgumentParser.construct children).parseFrom false (args ++ rest) s =
      uses.foldlM Use.apply s >>= (ArgumentParser.construct children).parseFrom false rest := by
  induction h generalizing s with
  | nil => rfl
  | @cons chunk values args uses uses' word tail ih =>
    rw [List.cons_append,List.append_assoc,parseFrom_word word,List.foldlM_append,bind_assoc]
    exact congrArg _ (funext fun s => ih)

lemma parseFlag_switch_ok {flag : FlagBase σ} {arg : Text} {joined : Option Text} {discard : Bool}
    {values : List Text} (hnargs : flag.nargs = ⟨0,0⟩)
    (h : (ArgumentParser.construct children).parseFlag flag arg rest true true joined discard s =
      .ok (s',values)) :
    (joined.isSome → discard = true) ∧ values = [] ∧ Use.apply s ⟨flag,arg,none⟩ = .ok s' := by
  have hjoined : joined.isSome → discard = true := by
    cases joined with
    | none => exact Bool.noConfusion
    | some value =>
      cases discard with
      | true => exact fun _ => rfl
      | false =>
        have hvalues : (ArgumentParser.construct children).parseArgsValues flag.nargs arg rest true
            true (some value) false = .error (.parse
              ("Passed an argument into a non-argument flag: ".toList ++ arg)) := by
          rw [hnargs]
          rfl
        rw [ArgumentParser.parseFlag,hvalues] at h
        cases hmatch : flag.match arg s <;> rw [hmatch] at h <;> cases h
  rw [parseFlag_switch children arg rest s hnargs hjoined] at h
  cases happly : Use.apply s ⟨flag,arg,none⟩ with
  | error e => rw [happly] at h; cases h
  | ok t =>
    rw [happly] at h
    cases h
    exact ⟨hjoined,rfl,rfl⟩

lemma parseFlag_value_ok {flag : FlagBase σ} {arg : Text} {joined : Option Text} {discard : Bool}
    {values : List Text} (hnargs : flag.nargs = ⟨1,1⟩)
    (h : (ArgumentParser.construct children).parseFlag flag arg rest true true joined discard s =
      .ok (s',values)) :
    ∃ value, (joined = some value ∨ joined = none ∧ rest.head? = some value) ∧
      values = [value] ∧ Use.apply s ⟨flag,arg,some value⟩ = .ok s' := by
  have hvalue : ∃ value, joined = some value ∨ joined = none ∧ rest.head? = some value := by
    cases joined with
    | some value => exact ⟨value,Or.inl rfl⟩
    | none =>
      cases rest with
      | cons value rest => exact ⟨value,Or.inr ⟨rfl,rfl⟩⟩
      | nil =>
        have hvalues : (ArgumentParser.construct children).parseArgsValues flag.nargs arg [] true
            true none discard = .error (.parse ("Flag '".toList ++ arg ++
              "' requires an argument but received none".toList)) := by
          rw [hnargs]
          rfl
        rw [ArgumentParser.parseFlag,hvalues] at h
        cases hmatch : flag.match arg s <;> rw [hmatch] at h <;> cases h
  obtain ⟨value,hvalue⟩ := hvalue
  rw [parseFlag_value children arg rest s hnargs hvalue] at h
  cases happly : Use.apply s ⟨flag,arg,some value⟩ with
  | error e => rw [happly] at h; cases h
  | ok t =>
    rw [happly] at h
    cases h
    exact ⟨value,hvalue,rfl,happly⟩

end Parse

/-- The flags take no value or exactly one. -/
def Plain (children : List (FlagBase σ)) : Prop :=
  ∀ flag ∈ children, flag.nargs = ⟨0,0⟩ ∨ flag.nargs = ⟨1,1⟩

section Accepted
variable {children : List (FlagBase σ)} (hplain : Plain children) {rest : List Text} {s s' : σ}
  {k : ℕ}
include hplain

/-- A long flag that is accepted is a word. -/
lemma word_of_parseLong {body : Text} (hbody : body ≠ [])
    (h : (ArgumentParser.construct children).parseLong ('-' :: '-' :: body) rest s = .ok (s',k)) :
    ∃ uses, Word (ArgumentParser.construct children) ('-' :: '-' :: body) (rest.take k) uses ∧
      k ≤ rest.length ∧ uses.foldlM Use.apply s = .ok s' := by
  have hsplit : ∃ name joined, (ArgumentParser.construct children).splitLong body = (name,joined) ∧
      '=' ∉ name ∧ (joined = none ∧ name = body ∨
        ∃ value, joined = some value ∧ body = name ++ '='::value) := by
    by_cases hmem : '=' ∈ body
    · obtain ⟨name,value,rfl,hname⟩ := List.eq_append_cons_of_mem hmem
      exact ⟨name,some value,splitLong_joined hname value,hname,Or.inr ⟨value,rfl,rfl⟩⟩
    · exact ⟨body,none,splitLong_plain hmem,hmem,Or.inl ⟨rfl,rfl⟩⟩
  obtain ⟨name,joined,hsplit,hname,hshape⟩ := hsplit
  cases found : (ArgumentParser.construct children).findLong name with
  | none =>
    have hchunk : ('-' :: '-' :: body).drop
        (List.length ( ArgumentParser.longprefix (ArgumentParser.construct children))) = body := rfl
    rw [ArgumentParser.parseLong,hchunk,hsplit] at h
    dsimp only at h
    rw [found] at h
    cases h
  | some flag =>
    rw [parseLong_eq hsplit found] at h
    cases hflag : (ArgumentParser.construct children).parseFlag flag name rest true true joined
      false s with
    | error e => rw [hflag] at h; cases h
    | ok r =>
      obtain ⟨t,values⟩ := r
      rw [hflag] at h
      cases h
      rcases hplain flag (List.mem_of_find?_eq_some found) with hnargs | hnargs
      · obtain ⟨hjoined,rfl,happly⟩ := parseFlag_switch_ok hnargs hflag
        rcases hshape with ⟨rfl,rfl⟩ | ⟨value,rfl,-⟩
        · exact ⟨_,.switch found hnargs hbody hname,Nat.zero_le _,by simpa using happly⟩
        · exact absurd (hjoined rfl) Bool.false_ne_true
      · obtain ⟨value,hvalue,rfl,happly⟩ := parseFlag_value_ok hnargs hflag
        have huses : [Use.mk flag name (some value)].foldlM Use.apply s = .ok t := by
          simpa using happly
        rcases hshape with ⟨rfl,rfl⟩ | ⟨value',rfl,rfl⟩
        · rcases hvalue with hvalue | ⟨-,hvalue⟩
          · cases hvalue
          · obtain ⟨rest,rfl⟩ := List.head?_eq_some_iff.mp hvalue
            exact ⟨_,.separate found hnargs hbody hname,Nat.succ_le_succ (Nat.zero_le _),huses⟩
        · rcases hvalue with hvalue | ⟨hvalue,-⟩
          · cases hvalue
            exact ⟨_,.joined found hnargs hname,Nat.zero_le _,huses⟩
          · cases hvalue

/-- The characters of an accepted word. -/
lemma shorts_of_parseShortFrom {names : Text}
    (h : (ArgumentParser.construct children).parseShortFrom rest names s = .ok (s',k)) :
    ∃ uses, Shorts (ArgumentParser.construct children) names (rest.take k) uses ∧
      k ≤ rest.length ∧ uses.foldlM Use.apply s = .ok s' := by
  induction names generalizing s with
  | nil =>
    cases h
    exact ⟨[],.done,Nat.zero_le _,rfl⟩
  | cons c names ih =>
    cases found : (ArgumentParser.construct children).findShort c with
    | none => rw [ArgumentParser.parseShortFrom,found] at h; cases h
    | some flag =>
      rw [parseShortFrom_cons found] at h
      cases hflag : (ArgumentParser.construct children).parseFlag flag [c] rest true true
        (if names = [] then none else some names) (decide (names ≠ [])) s with
      | error e => rw [hflag] at h; cases h
      | ok r =>
        obtain ⟨t,values⟩ := r
        rw [hflag] at h
        rcases hplain flag (List.mem_of_find?_eq_some found) with hnargs | hnargs
        · obtain ⟨-,rfl,happly⟩ := parseFlag_switch_ok hnargs hflag
          obtain ⟨uses,hshorts,hk,huses⟩ := ih h
          refine ⟨_,.switch found hnargs hshorts,hk,?_⟩
          rw [List.foldlM_cons,happly]
          exact huses
        · obtain ⟨value,hvalue,rfl,happly⟩ := parseFlag_value_ok hnargs hflag
          have huses : [Use.mk flag [c] (some value)].foldlM Use.apply s = .ok t := by
            simpa using happly
          rcases eq_or_ne names [] with rfl | hnames
          · rcases hvalue with hvalue | ⟨-,hvalue⟩
            · cases hvalue
            · obtain ⟨rest,rfl⟩ := List.head?_eq_some_iff.mp hvalue
              cases h
              exact ⟨_,.separate found hnargs,Nat.succ_le_succ (Nat.zero_le _),huses⟩
          · rw [if_neg hnames] at hvalue h
            rcases hvalue with hvalue | ⟨hvalue,-⟩
            · cases hvalue
              cases h
              exact ⟨_,.joined found hnargs hnames,Nat.zero_le _,huses⟩
            · cases hvalue

omit hplain in
lemma parseFrom_terminated {args : List Text}
    (h : (ArgumentParser.construct children).parseFrom true args s = .ok s') :
    args = [] ∧ s = s' := by
  cases args with
  | nil =>
    rw [ArgumentParser.parseFrom] at h
    cases h
    exact ⟨rfl,rfl⟩
  | cons chunk args =>
    rw [ArgumentParser.parseFrom] at h
    simp at h

omit hplain in
lemma parseFrom_positional {chunk : Text} {args : List Text} (hchunk : chunk ≠ ['-','-'])
    (h : (ArgumentParser.construct children).parseOption chunk = .positional) :
    (ArgumentParser.construct children).parseFrom false (chunk::args) s ≠ .ok s' := by
  have hterminator : ¬ (false = false ∧ chunk = (ArgumentParser.construct children).terminator) :=
    fun heq => hchunk heq.2
  rw [ArgumentParser.parseFrom,if_neg hterminator,h,if_neg (by simp),if_neg (by simp)]
  intro heq
  cases heq

/-- The first word of a command line that is accepted. -/
lemma word_of_parseFrom {chunk : Text} (hchunk : chunk ≠ ['-','-'])
    (h : (ArgumentParser.construct children).parseFrom false (chunk::rest) s = .ok s') :
    ∃ k uses t, Word (ArgumentParser.construct children) chunk (rest.take k) uses ∧
      k ≤ rest.length ∧ uses.foldlM Use.apply s = .ok t ∧
      (ArgumentParser.construct children).parseFrom false (rest.drop k) t = .ok s' := by
  rcases chunk with - | ⟨a,body⟩
  · exact absurd h (parseFrom_positional hchunk (parseOption_other children nofun))
  rcases eq_or_ne a '-' with rfl | ha
  · rcases body with - | ⟨c,body⟩
    · exact absurd h (parseFrom_positional hchunk (parseOption_dash children))
    rcases eq_or_ne c '-' with rfl | hc
    · obtain ⟨c,body,rfl⟩ := List.exists_cons_of_ne_nil (l := body) fun heq => hchunk (heq ▸ rfl)
      rw [parseFrom_long] at h
      cases hword : (ArgumentParser.construct children).parseLong ('-' :: '-' :: c::body) rest s with
      | error e => rw [hword] at h; cases h
      | ok r =>
        obtain ⟨uses,word,hk,huses⟩ := word_of_parseLong hplain (List.cons_ne_nil c body) hword
        rw [hword] at h
        exact ⟨r.2,uses,r.1,word,hk,huses,h⟩
    · rw [parseFrom_short hc] at h
      cases hword : (ArgumentParser.construct children).parseShortFrom rest (c::body) s with
      | error e => rw [hword] at h; cases h
      | ok r =>
        obtain ⟨uses,shorts,hk,huses⟩ := shorts_of_parseShortFrom hplain hword
        rw [hword] at h
        exact ⟨r.2,uses,r.1,.shorts hc shorts,hk,huses,h⟩
  · have hhead : (a::body).head? ≠ some '-' := fun heq => ha (Option.some.inj heq)
    exact absurd h (parseFrom_positional hchunk (parseOption_other children hhead))

/-- A command line is accepted exactly if it is made of words, with or without the terminator behind
them, and the flags can be used one after the other. -/
theorem parseArgs_ok_iff {args : List Text} :
    (ArgumentParser.construct children).parseArgs args s = .ok s' ↔
      ∃ words uses, (args = words ∨ args = words ++ [['-','-']]) ∧
        Words (ArgumentParser.construct children) words uses ∧
        uses.foldlM Use.apply s = .ok s' := by
  constructor
  · intro h
    induction hlen : args.length using Nat.strong_induction_on generalizing args s with
    | _ n ih =>
      rw [ArgumentParser.parseArgs] at h
      rcases args with - | ⟨chunk,rest⟩
      · rw [ArgumentParser.parseFrom] at h
        exact ⟨[],[],Or.inl rfl,.nil,h⟩
      by_cases hchunk : chunk = ['-','-']
      · subst hchunk
        obtain ⟨rfl,rfl⟩ := parseFrom_terminated (show
          (ArgumentParser.construct children).parseFrom true rest s = .ok s' by
            rwa [ArgumentParser.parseFrom,if_pos ⟨rfl,rfl⟩] at h)
        exact ⟨[],[],Or.inr rfl,.nil,rfl⟩
      obtain ⟨k,first,t,word,hk,hfirst,htail⟩ := word_of_parseFrom hplain hchunk h
      have hshorter : (rest.drop k).length < n := by
        rw [← hlen,List.length_drop,List.length_cons]
        omega
      obtain ⟨words,uses,hwords,htail,huses⟩ := ih _ hshorter htail rfl
      refine ⟨chunk::(rest.take k ++ words),first ++ uses,?_,.cons word htail,?_⟩
      · refine hwords.imp (fun heq => ?_) (fun heq => ?_)
        · rw [← heq,List.take_append_drop]
        · rw [List.cons_append,List.append_assoc,← heq,List.take_append_drop]
      · rw [List.foldlM_append,hfirst]
        exact huses
  · rintro ⟨words,uses,rfl | rfl,hwords,huses⟩
    · have h : (ArgumentParser.construct children).parseFrom false (args ++ []) s = _ :=
        parseFrom_words hwords
      rw [List.append_nil,huses] at h
      rw [ArgumentParser.parseArgs,h]
      exact ArgumentParser.parseFrom.eq_1 ..
    · rw [ArgumentParser.parseArgs,parseFrom_words hwords,huses]
      change (ArgumentParser.construct children).parseFrom false [['-','-']] s' = _
      rw [ArgumentParser.parseFrom,if_pos ⟨rfl,rfl⟩]
      exact ArgumentParser.parseFrom.eq_1 ..

end Accepted
end UarchBench.Args
