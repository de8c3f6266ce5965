import UarchBench.Base.Extraction
import UarchBench.Base.Progress
import UarchBench.Base.Regex

/-! The ECMAScript syntax of regular expressions: a scanner for escapes and bracket expressions,
and a recursive descent over its tokens. Counted repetition, lazy quantifiers, look-ahead,
back-references and numeric escapes are reported as unsupported. -/
namespace UarchBench.Base

inductive RegexError where
  | escape
  | brack
  | brace
  | range
  | paren
  | badRepeat
  | unsupported
  deriving DecidableEq, Repr

def isLineTerminator (c : Char) : Bool :=
  c == '\n' || c == '\r' || c == Char.ofNat 0x2028 || c == Char.ofNat 0x2029

/-- What a dot matches. -/
def anyChar (c : Char) : Bool := !isLineTerminator c

inductive ClassAtom where
  | char (c : Char)
  | chars (p : Char → Bool)

def ClassAtom.test : ClassAtom → Char → Bool
  | char c => fun x => x == c
  | chars p => p

def characterClass : Char → Option (Char → Bool)
  | 'd' => some Char.isDigit
  | 'D' => some (fun c => !c.isDigit)
  | 's' => some isSpace
  | 'S' => some (fun c => !isSpace c)
  | 'w' => some isWordChar
  | 'W' => some (fun c => !isWordChar c)
  | _ => none

def controlEscape : Char → Option Char
  | 't' => some '\t'
  | 'n' => some '\n'
  | 'v' => some (Char.ofNat 11)
  | 'f' => some (Char.ofNat 12)
  | 'r' => some '\r'
  | '0' => some (Char.ofNat 0)
  | _ => none

/-- The meaning of a character after a backslash; one that cannot be part of a name stands for
itself. -/
def escapeAtom (c : Char) : Except RegexError ClassAtom :=
  match characterClass c with
  | some p => .ok (.chars p)
  | none =>
    match controlEscape c with
    | some d => .ok (.char d)
    | none =>
      if c.isDigit || c == 'x' || c == 'u' || c == 'c' then .error .unsupported
      else if isWordChar c then .error .escape
      else .ok (.char c)

/-- One atom of a bracket expression, where `\b` is the backspace. -/
def classAtom : List Char → Except RegexError (ClassAtom × List Char)
  | [] => .error .brack
  | c::rest =>
    if c = '\\' then
      match rest with
      | [] => .error .escape
      | d::rest =>
        if d = 'b' then .ok (.char (Char.ofNat 8),rest) else (escapeAtom d).map (fun a => (a,rest))
    else if c = '[' ∧ rest.head?.any (fun d => d == ':' || d == '.' || d == '=') then
      .error .unsupported
    else .ok (.char c,rest)

def classRange : ClassAtom → ClassAtom → Except RegexError (Char → Bool)
  | .char lo, .char hi => if lo ≤ hi then .ok (fun x => lo ≤ x && x ≤ hi) else .error .range
  | _, _ => .error .range

/-- The atoms and ranges up to the closing bracket. -/
def classItems : ℕ → List Char → Except RegexError ((Char → Bool) × List Char)
  | 0, _ => .error .brack
  | fuel+1, s =>
    if s.head? = some ']' then .ok (fun _ => false,s.tail)
    else do
      let (a,rest) ← classAtom s
      if rest.head? = some '-' ∧ rest.tail.head? ≠ some ']' then do
        let (b,rest) ← classAtom rest.tail
        let p ← classRange a b
        let (q,rest) ← classItems fuel rest
        return (fun x => p x || q x,rest)
      else do
        let (q,rest) ← classItems fuel rest
        return (fun x => a.test x || q x,rest)

inductive Token where
  | set (chars : Char → Bool)
  | boundary (negated : Bool)
  | atStart
  | atEnd
  | star
  | plus
  | opt
  | alt
  | openParen
  | closeParen

def punctuator : Char → Option Token
  | '.' => some (.set anyChar)
  | '*' => some .star
  | '+' => some .plus
  | '?' => some .opt
  | '|' => some .alt
  | '(' => some .openParen
  | ')' => some .closeParen
  | '^' => some .atStart
  | '$' => some .atEnd
  | _ => none

def scan : ℕ → List Char → Except RegexError (List Token)
  | _, [] => .ok []
  | 0, _::_ => .error .unsupported
  | fuel+1, c::rest =>
    if c = '\\' then
      match rest with
      | [] => .error .escape
      | d::rest =>
        if d = 'b' ∨ d = 'B' then (scan fuel rest).map (Token.boundary (d == 'B')::·)
        else do
          let a ← escapeAtom d
          (scan fuel rest).map (Token.set a.test::·)
    else if c = '[' then
      if rest.head? = some '^' then do
        let (p,rest) ← classItems rest.length rest.tail
        (scan fuel rest).map (Token.set (fun x => !p x)::·)
      else do
        let (p,rest) ← classItems rest.length rest
        (scan fuel rest).map (Token.set p::·)
    else
      match punctuator c with
      | some t => (scan fuel rest).map (t::·)
      | none =>
        if c = '{' then .error .unsupported
        else if c = '}' then .error .brace
        else if c = ']' then .error .brack
        else (scan fuel rest).map (Token.set (ClassAtom.char c).test::·)

/-- The quantifier after an atom, if there is one. -/
def quantified (a : Regex) : List Token → Regex × List Token
  | .star::ts => (.star a,ts)
  | .plus::ts => (.seq a (.star a),ts)
  | .opt::ts => (.alt a .empty,ts)
  | ts => (a,ts)

mutual

def parseDisjunction : ℕ → List Token → Except RegexError (Regex × List Token)
  | 0, _ => .error .unsupported
  | fuel+1, ts => do
    let (a,ts) ← parseAlternative fuel ts
    match ts with
    | .alt::ts => do
      let (b,ts) ← parseDisjunction fuel ts
      return (.alt a b,ts)
    | ts => return (a,ts)

def parseAlternative : ℕ → List Token → Except RegexError (Regex × List Token)
  | 0, _ => .error .unsupported
  | fuel+1, .set p::ts => do
    let (b,rest) ← parseAlternative fuel (quantified (.set p) ts).2
    return (.seq (quantified (.set p) ts).1 b,rest)
  | fuel+1, .openParen::ts => do
    let (a,ts) ← parseDisjunction fuel ts
    match ts with
    | .closeParen::ts => do
      let (b,rest) ← parseAlternative fuel (quantified a ts).2
      return (.seq (quantified a ts).1 b,rest)
    | _ => .error .paren
  | fuel+1, .boundary negated::ts => do
    let (b,ts) ← parseAlternative fuel ts
    return (.seq (.boundary negated) b,ts)
  | fuel+1, .atStart::ts => do
    let (b,ts) ← parseAlternative fuel ts
    return (.seq .atStart b,ts)
  | fuel+1, .atEnd::ts => do
    let (b,ts) ← parseAlternative fuel ts
    return (.seq .atEnd b,ts)
  -- a question mark here follows nothing, a parenthesis or another quantifier
  | _+1, .opt::_ => .error .unsupported
  | _+1, .star::_ | _+1, .plus::_ => .error .badRepeat
  | _+1, ts => return (.empty,ts)

end

/-- The constructor of `std::regex`. -/
def parseRegex (text : List Char) : Except RegexError Regex := do
  let ts ← scan text.length text
  let (r,rest) ← parseDisjunction (2*ts.length+2) ts
  if rest.isEmpty then return r else .error .paren

/-- The characters with a meaning outside brackets. -/
def syntaxChars : List Char := ['\\','^','$','.','*','+','?','(',')','[',']','{','}','|']

lemma punctuator_none {c : Char} (h : c ∉ syntaxChars) : punctuator c = none := by
  unfold punctuator
  split <;> first | rfl | exact absurd (by decide) h

/-- A character without a meaning stands for itself. -/
theorem scan_literal {c : Char} (h : c ∉ syntaxChars) (fuel : ℕ) (rest : List Char) :
    scan (fuel+1) (c::rest) =
      (scan fuel rest).map (Token.set (ClassAtom.char c).test::·) := by
  have hmem : ∀ d ∈ syntaxChars, c ≠ d := fun d hd heq => h (heq ▸ hd)
  rw [scan.eq_def]
  simp only [if_neg (hmem '\\' (by decide)),if_neg (hmem '[' (by decide)),punctuator_none h,
    if_neg (hmem '{' (by decide)),if_neg (hmem '}' (by decide)),if_neg (hmem ']' (by decide))]

lemma characterClass_none {c : Char} (h : isWordChar c = false) : characterClass c = none := by
  unfold characterClass
  split <;> first | rfl | exact absurd h (by decide)

lemma controlEscape_none {c : Char} (h : isWordChar c = false) : controlEscape c = none := by
  unfold controlEscape
  split <;> first | rfl | exact absurd h (by decide)

lemma escapeAtom_identity {c : Char} (h : isWordChar c = false) :
    escapeAtom c = .ok (.char c) := by
  rw [escapeAtom,characterClass_none h,controlEscape_none h]
  have hne : ∀ d, isWordChar d = true → (c == d) = false := fun d hd =>
    beq_eq_false_iff_ne.mpr (fun heq => by rw [heq,hd] at h; contradiction)
  have hdigit : c.isDigit = false := by
    rw [isWordChar,Bool.or_eq_false_iff,Char.isAlphanum,Bool.or_eq_false_iff] at h
    exact h.1.2
  simp [h,hne 'x' (by decide),hne 'u' (by decide),hne 'c' (by decide),hdigit]

/-- An escaped character that cannot be part of a name stands for itself. -/
theorem scan_escaped {c : Char} (h : isWordChar c = false) (fuel : ℕ) (rest : List Char) :
    scan (fuel+1) ('\\'::c::rest) =
      (scan fuel rest).map (Token.set (ClassAtom.char c).test::·) := by
  have hb : ¬ (c = 'b' ∨ c = 'B') := by
    rintro (rfl | rfl)
    · exact absurd h (by decide)
    · exact absurd h (by decide)
  simp only [scan,if_true,if_neg hb,escapeAtom_identity h]
  rfl

/-- A character with a meaning is its token. -/
theorem scan_punctuator {c : Char} {t : Token} (h : punctuator c = some t) (fuel : ℕ)
    (rest : List Char) : scan (fuel+1) (c::rest) = (scan fuel rest).map (t::·) := by
  have hback : c ≠ '\\' := by
    rintro rfl
    cases h
  have hopen : c ≠ '[' := by
    rintro rfl
    cases h
  rw [scan.eq_def]
  simp only [if_neg hback,if_neg hopen,h]

/-- A dot with a star is a sequence of any characters. -/
theorem scan_anything (fuel : ℕ) (rest : List Char) :
    scan (fuel+2) ('.' :: '*' :: rest) =
      (scan fuel rest).map (fun ts => Token.set anyChar::Token.star::ts) := by
  change ((scan fuel rest).map (Token.star::·)).map (Token.set anyChar::·) = _
  cases scan fuel rest <;> rfl

lemma map_ok {ε α β : Type} {x : Except ε α} {f : α → β} {b : β} (h : x.map f = .ok b) :
    ∃ a, x = .ok a ∧ f a = b := by
  cases x with
  | error e => cases h
  | ok a => exact ⟨a,rfl,Except.ok.inj h⟩

lemma classAtom_suffix {s rest : List Char} {a : ClassAtom} (h : classAtom s = .ok (a,rest)) :
    rest <:+ s := by
  cases s with
  | nil => cases h
  | cons c s =>
    rw [classAtom.eq_def] at h
    simp only at h
    split_ifs at h with hback
    · cases s with
      | nil => cases h
      | cons d s =>
        simp only at h
        split_ifs at h
        · cases h
          exact ((List.suffix_refl _).trans (List.suffix_cons d _)).trans (List.suffix_cons c _)
        · obtain ⟨b,-,hb⟩ := map_ok h
          cases hb
          exact ((List.suffix_refl _).trans (List.suffix_cons d _)).trans (List.suffix_cons c _)
    · cases h
      exact List.suffix_cons c _

/-- A bracket expression ends with its bracket. -/
theorem classItems_closed {fuel : ℕ} {s rest : List Char} {p : Char → Bool}
    (h : classItems fuel s = .ok (p,rest)) : ']'::rest <:+ s := by
  induction fuel generalizing s p with
  | zero => cases h
  | succ fuel ih =>
    rw [classItems] at h
    split_ifs at h with hclose
    · cases h
      cases s with
      | nil => cases hclose
      | cons c s =>
        obtain rfl : c = ']' := by simpa using hclose
        exact List.suffix_refl _
    · obtain ⟨⟨a,s'⟩,ha,h⟩ := bind_eq_ok.mp h
      simp only at h
      split_ifs at h
      · obtain ⟨⟨b,s''⟩,hb,h⟩ := bind_eq_ok.mp h
        obtain ⟨q,-,h⟩ := bind_eq_ok.mp h
        obtain ⟨⟨r,t⟩,hr,h⟩ := bind_eq_ok.mp h
        cases h
        exact (ih hr).trans ((classAtom_suffix hb).trans
          ((List.tail_suffix s').trans (classAtom_suffix ha)))
      · obtain ⟨⟨q,s''⟩,hq,h⟩ := bind_eq_ok.mp h
        cases h
        exact (ih hq).trans (classAtom_suffix ha)

end UarchBench.Base
