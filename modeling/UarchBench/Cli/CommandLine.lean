import UarchBench.Base.LastWrite
import UarchBench.Cli.Options

/-! What a command line means: a switch is on if it is used at all, a text is the last one given,
a number is the last one given that is not blank. -/
namespace UarchBench.Cli
open Args Base Util

section Meaning
variable (longFlag : String)

def named (u : Use Settings) : Bool := u.flag.longFlags = [longFlag.toList]

def textOf (u : Use Settings) : Option Text := if named longFlag u then u.value else none

def numberOf {α : Type} (convert : Extracted → α) (u : Use Settings) : Option α :=
  if named longFlag u then u.value.bind (fun value => (extract value).map convert) else none

def used (uses : List (Use Settings)) : Bool := uses.any (named longFlag)

def lastText (uses : List (Use Settings)) : ValueFlag Text :=
  ⟨used longFlag uses,lastWrite (textOf longFlag) uses []⟩

def lastNumber {α : Type} (convert : Extracted → α) (default : α) (uses : List (Use Settings)) :
    ValueFlag α :=
  ⟨used longFlag uses,lastWrite (numberOf longFlag convert) uses default⟩

@[simp] lemma used_snoc (uses : List (Use Settings)) (u : Use Settings) :
    used longFlag (uses ++ [u]) = (used longFlag uses || named longFlag u) := by simp [used]

end Meaning

/-- The settings under the uses of the flags. -/
def settingsOf (uses : List (Use Settings)) : Settings where
  argClockoverhead := used "clock-overhead" uses
  argListbenches := used "list" uses
  argListtimers := used "list-timers" uses
  argVerbose := used "verbose" uses
  argTimer := lastText "timer" uses
  argDefaultPrecision := lastNumber "precision" Extracted.toUInt32 defaultPrecision uses
  argTestName := lastText "test-name" uses
  argTestTag := lastText "test-tag" uses
  argListevents := used "list-events" uses
  argExtraevents := lastText "extra-events" uses
  argPincpu := lastNumber "pinned-cpu" Extracted.toInt32 0 uses
  argInternalDumpTimer := used "internal-dump-timer" uses

/-- No help is asked for, and behind the digits of a number there is nothing. -/
def Readable (u : Use Settings) : Prop :=
  named "help" u = false ∧ (named "precision" u ∨ named "pinned-cpu" u →
    ∀ value ∈ u.value, ∀ e ∈ extract value, e.rest = [])

section Step
variable (uses : List (Use Settings)) {s : Settings}

@[simp] lemma named_switch (longFlag name : String) (matched : Settings → Bool)
    (setMatched : Settings → Settings) (shown : Text) (value : Option Text) :
    named longFlag ⟨switch name matched setMatched,shown,value⟩ = decide (name = longFlag) := by
  simp [named,switch,String.toList_inj]

@[simp] lemma named_valueFlag {α : Type} (longFlag name flag : String) (shortFlags : List Char)
    (read : ValueReader α) (get : Settings → ValueFlag α) (set : ValueFlag α → Settings → Settings)
    (shown : Text) (value : Option Text) :
    named longFlag ⟨valueFlag name shortFlags flag read get set,shown,value⟩ =
      decide (flag = longFlag) := by
  simp [named,valueFlag,String.toList_inj]

@[simp] lemma lastText_snoc (longFlag : String) (u : Use Settings) :
    lastText longFlag (uses ++ [u]) = ⟨(lastText longFlag uses).matched || named longFlag u,
      (textOf longFlag u).getD (lastText longFlag uses).value⟩ := by
  rw [lastText,used_snoc,lastWrite_snoc]
  rfl

@[simp] lemma lastNumber_snoc {α : Type} (longFlag : String) (convert : Extracted → α) (default : α)
    (u : Use Settings) : lastNumber longFlag convert default (uses ++ [u]) =
      ⟨(lastNumber longFlag convert default uses).matched || named longFlag u,
        (numberOf longFlag convert u).getD (lastNumber longFlag convert default uses).value⟩ := by
  rw [lastNumber,used_snoc,lastWrite_snoc]
  rfl

lemma apply_switch_iff {name : String} {matched : Settings → Bool}
    {setMatched : Settings → Settings} {shown : Text} {value : Option Text}
    (hread : Readable ⟨switch name matched setMatched,shown,value⟩)
    (hsnoc : settingsOf (uses ++ [⟨switch name matched setMatched,shown,value⟩]) =
      setMatched (settingsOf uses)) :
    Use.apply (settingsOf uses) ⟨switch name matched setMatched,shown,value⟩ = .ok s ↔
      Readable ⟨switch name matched setMatched,shown,value⟩ ∧
        s = settingsOf (uses ++ [⟨switch name matched setMatched,shown,value⟩]) := by
  rw [hsnoc]
  change Except.ok (setMatched (settingsOf uses)) = Except.ok s ↔ _
  rw [Except.ok.injEq]
  exact ⟨fun h => ⟨hread,h.symm⟩,fun h => h.2.symm⟩

lemma apply_valueFlag_iff {α : Type} {name longFlag : String} {shortFlags : List Char}
    {read : ValueReader α} {get : Settings → ValueFlag α} {set : ValueFlag α → Settings → Settings}
    {shown value : Text} {v : α} {t : Settings}
    (ht : t = set { get (settingsOf uses) with matched := true } (settingsOf uses))
    (hread : ∀ v', read name.toList value (get t).value = .ok v' ↔
      Readable ⟨valueFlag name shortFlags longFlag read get set,shown,some value⟩ ∧ v' = v)
    (hsnoc : settingsOf (uses ++ [⟨valueFlag name shortFlags longFlag read get set,shown,
      some value⟩]) = set { get t with value := v } t) :
    Use.apply (settingsOf uses) ⟨valueFlag name shortFlags longFlag read get set,shown,
        some value⟩ = .ok s ↔
      Readable ⟨valueFlag name shortFlags longFlag read get set,shown,some value⟩ ∧
        s = settingsOf (uses ++ [⟨valueFlag name shortFlags longFlag read get set,shown,
          some value⟩]) := by
  have happly : Use.apply (settingsOf uses) ⟨valueFlag name shortFlags longFlag read get set,shown,
      some value⟩ = (read name.toList value (get t).value).map
        (fun value => set { get t with value := value } t) := by
    rw [ht]
    rfl
  rw [hsnoc,happly]
  cases hvalue : read name.toList value (get t).value with
  | error e =>
    refine ⟨nofun,fun h => ?_⟩
    rw [(hread v).mpr ⟨h.1,rfl⟩] at hvalue
    cases hvalue
  | ok v' =>
    obtain ⟨hreadable,rfl⟩ := (hread v').mp hvalue
    exact ⟨fun h => ⟨hreadable,(Except.ok.inj h).symm⟩,fun h => congrArg Except.ok h.2.symm⟩

lemma readNumber_iff {α : Type} {convert : Extracted → α} {name value : Text} {v v' : α} {P : Prop}
    (h : P ↔ ∀ e ∈ extract value, e.rest = []) :
    readNumber convert name value v = .ok v' ↔ P ∧ v' = ((extract value).map convert).getD v := by
  rw [readNumber,h]
  cases extract value with
  | none => simp [eq_comm]
  | some e => by_cases hrest : e.rest = [] <;> simp [hrest,eq_comm]

lemma readString_iff {value v' : Text} {name destination : Text} {P : Prop} (h : P) :
    readString name value destination = .ok v' ↔ P ∧ v' = value := by
  simp [readString,h,eq_comm]

/-- One use of a flag. -/
theorem apply_settingsOf {u : Use Settings} (hu : u.Proper parser) :
    Use.apply (settingsOf uses) u = .ok s ↔ Readable u ∧ s = settingsOf (uses ++ [u]) := by
  obtain ⟨flag,shown,value⟩ := u
  obtain ⟨hmem,hvalue⟩ := hu
  have hsome : flag.nargs = ⟨1,1⟩ → ∃ text, value = some text := by
    rintro hnargs
    rcases hvalue with ⟨hzero,-⟩ | ⟨-,h⟩
    · rw [hnargs] at hzero
      cases hzero
    · exact h
  simp only [parser,ArgumentParser.construct,flags,List.mem_cons,List.not_mem_nil,or_false] at hmem
  rcases hmem with rfl | rfl | rfl | rfl | rfl | rfl | rfl | rfl | rfl | rfl | rfl | rfl | rfl
  · refine iff_of_false (fun h => by cases h) (fun h => ?_)
    have hhelp := h.1.1
    simp [named,help] at hhelp
  · exact apply_switch_iff uses (by simp [Readable]) (by simp [settingsOf,textOf,numberOf])
  · exact apply_switch_iff uses (by simp [Readable]) (by simp [settingsOf,textOf,numberOf])
  · exact apply_switch_iff uses (by simp [Readable]) (by simp [settingsOf,textOf,numberOf])
  · exact apply_switch_iff uses (by simp [Readable]) (by simp [settingsOf,textOf,numberOf])
  · obtain ⟨text,rfl⟩ := hsome rfl
    exact apply_valueFlag_iff uses rfl (fun v' => readString_iff (by simp [Readable]))
      (by simp [settingsOf,textOf,numberOf])
  · obtain ⟨text,rfl⟩ := hsome rfl
    exact apply_valueFlag_iff uses rfl (fun v' => readNumber_iff (by simp [Readable]))
      (by simp [settingsOf,textOf,numberOf])
  · obtain ⟨text,rfl⟩ := hsome rfl
    exact apply_valueFlag_iff uses rfl (fun v' => readString_iff (by simp [Readable]))
      (by simp [settingsOf,textOf,numberOf])
  · obtain ⟨text,rfl⟩ := hsome rfl
    exact apply_valueFlag_iff uses rfl (fun v' => readString_iff (by simp [Readable]))
      (by simp [settingsOf,textOf,numberOf])
  · exact apply_switch_iff uses (by simp [Readable]) (by simp [settingsOf,textOf,numberOf])
  · obtain ⟨text,rfl⟩ := hsome rfl
    exact apply_valueFlag_iff uses rfl (fun v' => readString_iff (by simp [Readable]))
      (by simp [settingsOf,textOf,numberOf])
  · obtain ⟨text,rfl⟩ := hsome rfl
    exact apply_valueFlag_iff uses rfl (fun v' => readNumber_iff (by simp [Readable]))
      (by simp [settingsOf,textOf,numberOf])
  · exact apply_switch_iff uses (by simp [Readable]) (by simp [settingsOf,textOf,numberOf])

end Step

/-- The uses of the flags, one after the other. -/
theorem foldlM_settingsOf {uses : List (Use Settings)} {s : Settings}
    (h : ∀ u ∈ uses, u.Proper parser) :
    uses.foldlM Use.apply {} = .ok s ↔ (∀ u ∈ uses, Readable u) ∧ s = settingsOf uses := by
  induction uses using List.reverseRecOn generalizing s with
  | nil =>
    refine ⟨fun h => ⟨by simp,(Except.ok.inj h).symm⟩,fun h => congrArg Except.ok h.2.symm⟩
  | append_singleton uses u ih =>
    obtain ⟨huses,hu⟩ := List.forall_mem_append.mp h
    rw [List.foldlM_append,bind_eq_ok,List.forall_mem_append,List.forall_mem_singleton]
    have hstep : ∀ t, [u].foldlM Use.apply t = .ok s ↔ Use.apply t u = .ok s := fun t => by simp
    constructor
    · rintro ⟨t,ht,hs⟩
      obtain ⟨hreadable,rfl⟩ := (ih huses).mp ht
      obtain ⟨hlast,hs⟩ := (apply_settingsOf uses (hu u (by simp))).mp ((hstep _).mp hs)
      exact ⟨⟨hreadable,hlast⟩,hs⟩
    · rintro ⟨⟨hreadable,hlast⟩,hs⟩
      exact ⟨_,(ih huses).mpr ⟨hreadable,rfl⟩,
        (hstep _).mpr ((apply_settingsOf uses (hu u (by simp))).mpr ⟨hlast,hs⟩)⟩

/-- The command lines that are accepted, and what they mean: words, with or without the terminator
behind them, in which no help is asked for and every number can be read. -/
theorem parseCli_ok_iff (args : List Text) (s : Settings) :
    parseCli args = .ok s ↔
      ∃ words uses, (args = words ∨ args = words ++ [['-','-']]) ∧ Words parser words uses ∧
        (∀ u ∈ uses, Readable u) ∧ s = settingsOf uses := by
  refine (parseArgs_ok_iff plain_flags).trans ?_
  refine exists₂_congr (fun words uses => and_congr_right fun _ => and_congr_right fun hwords => ?_)
  exact foldlM_settingsOf hwords.proper

/-- A flag that has not been used has its default. -/
def ValueFlag.Unset {α : Type} (default : α) (f : ValueFlag α) : Prop :=
  f.matched = false → f.value = default

/-- Settings that flags can be used for. -/
structure Configured (s : Settings) : Prop where
  help : s.help = false
  argTimer : s.argTimer.Unset []
  argDefaultPrecision : s.argDefaultPrecision.Unset defaultPrecision
  argTestName : s.argTestName.Unset []
  argTestTag : s.argTestTag.Unset []
  argExtraevents : s.argExtraevents.Unset []
  argPincpu : s.argPincpu.Unset 0

section Render

/-- A switch, if it is on. -/
def switchUse (flag : FlagBase Settings) (longFlag : String) (on : Bool) : List (Use Settings) :=
  if on then [⟨flag,longFlag.toList,none⟩] else []

/-- A flag with a value, if it is used. -/
def valueUse {α : Type} (flag : FlagBase Settings) (longFlag : String) (text : α → Text)
    (f : ValueFlag α) : List (Use Settings) :=
  if f.matched then [⟨flag,longFlag.toList,some (text f.value)⟩] else []

/-- Each flag is used once at most. -/
def usesOf (s : Settings) : List (Use Settings) :=
  switchUse argClockoverhead "clock-overhead" s.argClockoverhead ++
  switchUse argListbenches "list" s.argListbenches ++
  switchUse argListtimers "list-timers" s.argListtimers ++
  switchUse argVerbose "verbose" s.argVerbose ++
  valueUse argTimer "timer" id s.argTimer ++
  valueUse argDefaultPrecision "precision" (fun n => Nat.toDigits 10 n.toNat)
    s.argDefaultPrecision ++
  valueUse argTestName "test-name" id s.argTestName ++
  valueUse argTestTag "test-tag" id s.argTestTag ++
  switchUse argListevents "list-events" s.argListevents ++
  valueUse argExtraevents "extra-events" id s.argExtraevents ++
  valueUse argPincpu "pinned-cpu" (fun n => integerText n.toInt) s.argPincpu ++
  switchUse argInternalDumpTimer "internal-dump-timer" s.argInternalDumpTimer

def argumentOf (u : Use Settings) : Text :=
  match u.value with
  | some value => '-' :: '-' :: (u.shown ++ '='::value)
  | none => '-' :: '-' :: u.shown

/-- The command line with the settings, one argument for each flag. -/
def render (s : Settings) : List Text := (usesOf s).map argumentOf

lemma words_append {p : ArgumentParser Settings} {args args' : List Text}
    {uses uses' : List (Use Settings)} (h : Words p args uses) (h' : Words p args' uses') :
    Words p (args ++ args') (uses ++ uses') := by
  induction h with
  | nil => exact h'
  | cons word tail ih =>
    rw [List.cons_append,List.append_assoc,List.append_assoc]
    exact .cons word ih

lemma words_switchUse {flag : FlagBase Settings} {longFlag : String}
    (found : parser.findLong longFlag.toList = some flag) (nargs : flag.nargs = ⟨0,0⟩)
    (nonempty : longFlag.toList ≠ []) (plain : '=' ∉ longFlag.toList) (on : Bool) :
    Words parser ((switchUse flag longFlag on).map argumentOf) (switchUse flag longFlag on) := by
  cases on with
  | false => exact .nil
  | true => exact .cons (.switch found nargs nonempty plain) .nil

lemma words_valueUse {α : Type} {flag : FlagBase Settings} {longFlag : String}
    (found : parser.findLong longFlag.toList = some flag) (nargs : flag.nargs = ⟨1,1⟩)
    (plain : '=' ∉ longFlag.toList) (text : α → Text) (f : ValueFlag α) :
    Words parser ((valueUse flag longFlag text f).map argumentOf)
      (valueUse flag longFlag text f) := by
  rw [valueUse]
  split_ifs with h
  · exact .cons (.joined found nargs plain) .nil
  · exact .nil

lemma words_render (s : Settings) : Words parser (render s) (usesOf s) := by
  simp only [render,usesOf,List.map_append]
  refine words_append (words_append (words_append (words_append (words_append (words_append
    (words_append (words_append (words_append (words_append (words_append
    (words_switchUse rfl rfl ?_ ?_ _) (words_switchUse rfl rfl ?_ ?_ _))
    (words_switchUse rfl rfl ?_ ?_ _)) (words_switchUse rfl rfl ?_ ?_ _))
    (words_valueUse rfl rfl ?_ _ _)) (words_valueUse rfl rfl ?_ _ _))
    (words_valueUse rfl rfl ?_ _ _)) (words_valueUse rfl rfl ?_ _ _))
    (words_switchUse rfl rfl ?_ ?_ _)) (words_valueUse rfl rfl ?_ _ _))
    (words_valueUse rfl rfl ?_ _ _)) (words_switchUse rfl rfl ?_ ?_ _)
  all_goals decide

section Last
variable {longFlag name n : String} (uses : List (Use Settings)) {shortFlags : List Char}

lemma used_switchUse (matched : Settings → Bool) (setMatched : Settings → Settings) (on : Bool) :
    used longFlag (uses ++ switchUse (switch name matched setMatched) name on) =
      (used longFlag uses || (on && decide (name = longFlag))) := by
  cases on <;> simp [switchUse]

lemma lastText_switchUse (h : name ≠ longFlag) (matched : Settings → Bool)
    (setMatched : Settings → Settings) (on : Bool) :
    lastText longFlag (uses ++ switchUse (switch name matched setMatched) name on) =
      lastText longFlag uses := by
  cases on <;> simp [switchUse,textOf,h]

lemma lastNumber_switchUse {α : Type} (h : name ≠ longFlag) (convert : Extracted → α) (default : α)
    (matched : Settings → Bool) (setMatched : Settings → Settings) (on : Bool) :
    lastNumber longFlag convert default (uses ++ switchUse (switch name matched setMatched) name on)
      = lastNumber longFlag convert default uses := by
  cases on <;> simp [switchUse,numberOf,h]

variable {α : Type} {read : ValueReader α} {get : Settings → ValueFlag α}
  {set : ValueFlag α → Settings → Settings} (text : α → Text) (f : ValueFlag α)

lemma used_valueUse (h : name ≠ longFlag) :
    used longFlag (uses ++ valueUse (valueFlag n shortFlags name read get set) name text f) =
      used longFlag uses := by
  rw [valueUse]
  split_ifs <;> simp [h]

lemma lastText_valueUse (h : name ≠ longFlag) :
    lastText longFlag (uses ++ valueUse (valueFlag n shortFlags name read get set) name text f) =
      lastText longFlag uses := by
  rw [valueUse]
  split_ifs <;> simp [textOf,h]

lemma lastNumber_valueUse {β : Type} (h : name ≠ longFlag) (convert : Extracted → β) (default : β) :
    lastNumber longFlag convert default
        (uses ++ valueUse (valueFlag n shortFlags name read get set) name text f) =
      lastNumber longFlag convert default uses := by
  rw [valueUse]
  split_ifs <;> simp [numberOf,h]

lemma lastText_same {get : Settings → ValueFlag Text} {set : ValueFlag Text → Settings → Settings}
    (h : lastText name uses = ⟨false,[]⟩) {f : ValueFlag Text} (hf : f.Unset []) :
    lastText name (uses ++ valueUse (valueFlag n shortFlags name readString get set) name id f) =
      f := by
  obtain ⟨matched,value⟩ := f
  cases matched with
  | true => simp [valueUse,textOf]
  | false => simp [valueUse,h,show value = [] from hf rfl]

lemma lastNumber_same {convert : Extracted → α} {default : α}
    (h : lastNumber name convert default uses = ⟨false,default⟩) {f : ValueFlag α}
    (hf : f.Unset default) (htext : (extract (text f.value)).map convert = some f.value) :
    lastNumber name convert default
      (uses ++ valueUse (valueFlag n shortFlags name read get set) name text f) = f := by
  obtain ⟨matched,value⟩ := f
  cases matched with
  | true => simp [valueUse,numberOf,htext]
  | false => simp [valueUse,h,show value = default from hf rfl]

end Last

/-- Every setting is found again in the uses. -/
lemma settingsOf_usesOf {s : Settings} (h : Configured s) : settingsOf (usesOf s) = s := by
  have hused : ∀ longFlag, used longFlag [] = false := fun _ => rfl
  have htext : ∀ longFlag, lastText longFlag [] = ⟨false,[]⟩ := fun _ => rfl
  have hnumber : ∀ {α : Type} (convert : Extracted → α) (default : α) (longFlag : String),
    lastNumber longFlag convert default [] = ⟨false,default⟩ := fun _ _ _ => rfl
  have hprecision : (extract (Nat.toDigits 10 s.argDefaultPrecision.value.toNat)).map
      Extracted.toUInt32 = some s.argDefaultPrecision.value := by
    rw [extract_toDigits,Option.map_some,toUInt32_toDigits]
  have hpincpu : (extract (integerText s.argPincpu.value.toInt)).map Extracted.toInt32 =
      some s.argPincpu.value := by
    obtain ⟨e,he,-,hvalue⟩ := extract_integerText s.argPincpu.value.toInt
    rw [he,Option.map_some,toInt32_of_toInt hvalue]
  rw [settingsOf,usesOf,← List.nil_append (switchUse argClockoverhead _ _)]
  simp only [argClockoverhead,argListbenches,argListtimers,argVerbose,argTimer,argDefaultPrecision,
    argTestName,argTestTag,argListevents,argExtraevents,argPincpu,argInternalDumpTimer,
    used_switchUse,lastText_switchUse,lastNumber_switchUse,used_valueUse,lastText_valueUse,
    lastNumber_valueUse,ne_eq,String.reduceEq,not_false_eq_true,hused,decide_true,decide_false,
    Bool.and_true,Bool.and_false,Bool.or_false,Bool.false_or]
  rw [lastText_same _ ?_ h.argTimer,lastNumber_same _ _ ?_ h.argDefaultPrecision hprecision,
    lastText_same _ ?_ h.argTestName,lastText_same _ ?_ h.argTestTag,
    lastText_same _ ?_ h.argExtraevents,lastNumber_same _ _ ?_ h.argPincpu hpincpu]
  · exact congrArg (fun help => { s with help := help }) h.help.symm
  all_goals simp only [lastText_switchUse,lastNumber_switchUse,lastText_valueUse,
    lastNumber_valueUse,ne_eq,String.reduceEq,not_false_eq_true,htext,hnumber]

lemma readable_switchUse {name : String} (h : name ≠ "help" ∧ name ≠ "precision" ∧
    name ≠ "pinned-cpu") (matched : Settings → Bool) (setMatched : Settings → Settings) (on : Bool) :
    ∀ u ∈ switchUse (switch name matched setMatched) name on, Readable u := by
  cases on <;> simp [switchUse,Readable,h]

lemma readable_valueUse {α : Type} {n name : String} {shortFlags : List Char}
    {read : ValueReader α} {get : Settings → ValueFlag α} {set : ValueFlag α → Settings → Settings}
    {text : α → Text} {f : ValueFlag α} (h : name ≠ "help")
    (hvalue : name = "precision" ∨ name = "pinned-cpu" →
      ∀ e ∈ extract (text f.value), e.rest = []) :
    ∀ u ∈ valueUse (valueFlag n shortFlags name read get set) name text f, Readable u := by
  rw [valueUse]
  split_ifs
  · refine List.forall_mem_singleton.mpr ⟨by simpa using h,fun hname value hmem => ?_⟩
    cases hmem
    exact hvalue (by simpa using hname)
  · simp

lemma readable_usesOf (s : Settings) : ∀ u ∈ usesOf s, Readable u := by
  simp only [usesOf,List.forall_mem_append]
  refine ⟨⟨⟨⟨⟨⟨⟨⟨⟨⟨⟨?_,?_⟩,?_⟩,?_⟩,?_⟩,?_⟩,?_⟩,?_⟩,?_⟩,?_⟩,?_⟩,?_⟩
  case refine_6 =>
    refine readable_valueUse (by decide) (fun _ e he => ?_)
    rw [extract_toDigits] at he
    cases he
    rfl
  case refine_11 =>
    refine readable_valueUse (by decide) (fun _ e he => ?_)
    obtain ⟨e',he',hrest,-⟩ := extract_integerText s.argPincpu.value.toInt
    rw [he'] at he
    cases he
    exact hrest
  case refine_5 | refine_7 | refine_8 | refine_10 => exact readable_valueUse (by decide) (by simp)
  all_goals exact readable_switchUse (by decide) _ _ _

end Render

lemma unset_lastText {longFlag : String} {uses : List (Use Settings)} :
    (lastText longFlag uses).Unset [] := fun h =>
  lastWrite_of_none _ (fun u hu => if_neg (by simpa using List.any_eq_false.mp h u hu))

lemma unset_lastNumber {α : Type} {longFlag : String} {convert : Extracted → α} {default : α}
    {uses : List (Use Settings)} : (lastNumber longFlag convert default uses).Unset default :=
  fun h => lastWrite_of_none _ (fun u hu => if_neg (by simpa using List.any_eq_false.mp h u hu))

/-- Exactly the settings in which a flag that is not used has its default come from a command line,
and one of their command lines is the rendered one. -/
theorem parseCli_render (s : Settings) :
    ((∃ args, parseCli args = .ok s) ↔ Configured s) ∧
      (Configured s → parseCli (render s) = .ok s) := by
  have hrender : Configured s → parseCli (render s) = .ok s := fun h =>
    (parseArgs_ok_iff plain_flags).mpr ⟨_,_,Or.inl rfl,words_render s,
      (foldlM_settingsOf (words_render s).proper).mpr
        ⟨readable_usesOf s,(settingsOf_usesOf h).symm⟩⟩
  refine ⟨⟨?_,fun h => ⟨_,hrender h⟩⟩,hrender⟩
  rintro ⟨args,hargs⟩
  obtain ⟨words,uses,-,hwords,huses⟩ := (parseArgs_ok_iff plain_flags).mp hargs
  obtain ⟨-,rfl⟩ := (foldlM_settingsOf hwords.proper).mp huses
  exact ⟨rfl,unset_lastText,unset_lastNumber,unset_lastText,unset_lastText,unset_lastText,
    unset_lastNumber⟩

end UarchBench.Cli
