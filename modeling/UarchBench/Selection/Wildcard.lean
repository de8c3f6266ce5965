import UarchBench.Base.RegexSyntax
import UarchBench.Util.Split

/-! Wildcard matching by rewriting the pattern to a regular expression: first every character of
a class gets a backslash, then every escaped star becomes `.*`. The two rewritings do not
interfere, so that the expression comes from the characters of the pattern one by one. -/
namespace UarchBench.Selection
open Base Util

/-- `[-[\]{}()*+?.\^$|]`, the characters to escape. -/
def charsToEscapeText : Text :=
  ['[','-','[','\\',']','{','}','(',')','*','+','?','.','\\','^','$','|',']']

/-- The replacement format is `\$&`. -/
def escapeForRegex (input : Text) : Except RegexError Text := do
  let charsToEscape ← parseRegex charsToEscapeText
  return regexReplace input charsToEscape (expandFormat ['\\','$','&'])

/-- `\\\*`, an escaped star. -/
def escapedStarText : Text := ['\\','\\','\\','*']

def wildcardMatch (target pattern : Text) : Except RegexError Bool := do
  let escaped ← escapeForRegex pattern
  let escapedStar ← parseRegex escapedStarText
  let regex := regexReplace escaped escapedStar (expandFormat ['.','*'])
  let r ← parseRegex regex
  return regexMatch r target

/-- The members of the class. -/
def escapedChars : List Char := ['-','[',']','{','}','(',')','*','+','?','.','^','$','|']

lemma parse_charsToEscape : ∃ p, parseRegex charsToEscapeText = .ok (.seq (.set p) .empty) ∧
    ∀ c, p c = escapedChars.contains c := by
  refine ⟨_,rfl,fun c => ?_⟩
  simp only [escapedChars,List.contains_cons,List.contains_nil,ClassAtom.test]

/-- An escaped star as an expression. -/
def escapedStar : Regex :=
  .seq (.set (ClassAtom.char '\\').test) (.seq (.set (ClassAtom.char '*').test) .empty)

lemma parse_escapedStar : parseRegex escapedStarText = .ok escapedStar := rfl

/-- The pattern with its characters escaped. -/
def escaped (pattern : Text) : Text :=
  pattern.flatMap (fun c => if escapedChars.contains c then ['\\',c] else [c])

/-- Replacing the characters of a set. -/
lemma replace_set (p : Char → Bool) (format : Text → Text) (fuel : ℕ) (s : Cursor)
    (hfuel : s.rest.length ≤ fuel) :
    regexReplaceFrom (.seq (.set p) .empty) format fuel s =
      s.rest.flatMap (fun c => if p c then format [c] else [c]) := by
  induction fuel generalizing s with
  | zero =>
    have hnil := List.length_eq_zero_iff.mp (Nat.le_zero.mp hfuel)
    rw [regexReplaceFrom,hnil]
    rfl
  | succ fuel ih =>
    obtain ⟨prev,rest⟩ := s
    cases rest with
    | nil => rfl
    | cons c rest =>
      have hnext := ih ⟨some c,rest⟩ (Nat.le_of_succ_le_succ hfuel)
      cases hc : p c with
      | true =>
        have hrun : Regex.run (.seq (.set p) .empty) ⟨prev,c::rest⟩ = [⟨some c,rest⟩] := by
          simp [Regex.run,Cursor.next,hc]
        have htake : (c::rest).length-rest.length = 1 := by
          rw [List.length_cons]
          omega
        rw [regexReplaceFrom_match hrun (Nat.lt_succ_self _),List.flatMap_cons,if_pos hc,← hnext,
          htake]
        rfl
      | false =>
        have hrun : Regex.run (.seq (.set p) .empty) ⟨prev,c::rest⟩ = [] := by
          simp [Regex.run,Cursor.next,hc]
        rw [regexReplaceFrom_copy hrun,List.flatMap_cons,hc,← hnext]
        rfl

theorem escapeForRegex_eq (pattern : Text) : escapeForRegex pattern = .ok (escaped pattern) := by
  obtain ⟨p,hp,hset⟩ := parse_charsToEscape
  have hreplace := replace_set p (expandFormat ['\\','$','&']) pattern.length ⟨none,pattern⟩ le_rfl
  rw [escapeForRegex,hp]
  change Except.ok (regexReplaceFrom _ _ _ _) = _
  rw [hreplace,escaped]
  simp only [hset]
  rfl

/-- What both rewritings make of one character. -/
def rewritten (c : Char) : Text :=
  if c = '*' then ['.','*'] else if escapedChars.contains c then ['\\',c] else [c]

lemma escaped_cons (c : Char) (pattern : Text) : escaped (c::pattern) =
    (if escapedChars.contains c then ['\\',c] else [c]) ++ escaped pattern := List.flatMap_cons

lemma escaped_head_ne_star (pattern : Text) : (escaped pattern).head? ≠ some '*' := by
  cases pattern with
  | nil => simp [escaped]
  | cons c pattern =>
    rw [escaped_cons]
    split_ifs with hc
    · simp
    · rintro h
      have heq : c = '*' := by simpa using h
      rw [heq] at hc
      exact hc (by decide)

lemma escapedStar_run (prev : Option Char) (rest : Text) :
    escapedStar.run ⟨prev,'\\' :: '*' :: rest⟩ = [⟨some '*',rest⟩] := rfl

/-- A backslash is not a match unless a star follows. -/
lemma escapedStar_run_backslash (prev : Option Char) {rest : Text} (h : rest.head? ≠ some '*') :
    escapedStar.run ⟨prev,'\\'::rest⟩ = [] := by
  cases rest with
  | nil => rfl
  | cons c rest =>
    have hc : c ≠ '*' := by simpa using h
    simp [escapedStar,Regex.run,Cursor.next,ClassAtom.test,hc]

lemma escapedStar_run_other (prev : Option Char) {c : Char} (h : c ≠ '\\') (rest : Text) :
    escapedStar.run ⟨prev,c::rest⟩ = [] := by
  simp [escapedStar,Regex.run,Cursor.next,ClassAtom.test,h]

lemma replace_star (format : Text → Text) (fuel : ℕ) (prev : Option Char) (rest : Text) :
    regexReplaceFrom escapedStar format (fuel+1) ⟨prev,'\\' :: '*' :: rest⟩ =
      format ['\\','*'] ++ regexReplaceFrom escapedStar format fuel ⟨some '*',rest⟩ := by
  have htake : ('\\' :: '*' :: rest).length-rest.length = 2 := by
    rw [List.length_cons,List.length_cons]
    omega
  have hlt : rest.length < ('\\' :: '*' :: rest).length := by
    rw [List.length_cons,List.length_cons]
    omega
  rw [regexReplaceFrom_match (escapedStar_run prev rest) hlt,htake]
  rfl

/-- The two rewritings do not interfere: only stars that were in the pattern become `.*`. -/
lemma replace_escaped (pattern : Text) (fuel : ℕ) (prev : Option Char)
    (hfuel : (escaped pattern).length ≤ fuel) :
    regexReplaceFrom escapedStar (expandFormat ['.','*']) fuel ⟨prev,escaped pattern⟩ =
      pattern.flatMap rewritten := by
  induction pattern generalizing fuel prev with
  | nil => cases fuel <;> rfl
  | cons c pattern ih =>
    rw [escaped_cons] at hfuel ⊢
    rw [List.flatMap_cons,rewritten]
    by_cases hesc : escapedChars.contains c = true
    · rw [if_pos hesc] at hfuel ⊢
      obtain ⟨fuel,rfl⟩ : ∃ k, fuel = k+2 := ⟨fuel-2,by simp at hfuel; omega⟩
      have hlen : (escaped pattern).length ≤ fuel := by simpa using hfuel
      by_cases hstar : c = '*'
      · subst hstar
        change regexReplaceFrom escapedStar _ (fuel+1+1) ⟨prev,'\\' :: '*' :: escaped pattern⟩ = _
        rw [replace_star,ih (fuel+1) _ (Nat.le_succ_of_le hlen)]
        rfl
      · have hback : c ≠ '\\' := by
          rintro rfl
          exact absurd hesc (by decide)
        rw [if_neg hstar]
        change regexReplaceFrom escapedStar _ (fuel+1+1) ⟨prev,'\\'::c::escaped pattern⟩ = _
        rw [regexReplaceFrom_copy (escapedStar_run_backslash prev (by simpa using hstar)),
          regexReplaceFrom_copy (escapedStar_run_other _ hback _),ih fuel _ hlen]
        rfl
    · have hstar : c ≠ '*' := by
        rintro rfl
        exact hesc (by decide)
      rw [if_neg hesc] at hfuel ⊢
      obtain ⟨fuel,rfl⟩ : ∃ k, fuel = k+1 := ⟨fuel-1,by simp at hfuel; omega⟩
      have hlen : (escaped pattern).length ≤ fuel := by simpa using hfuel
      rw [if_neg hstar]
      change regexReplaceFrom escapedStar _ (fuel+1) ⟨prev,c::escaped pattern⟩ = _
      by_cases hback : c = '\\'
      · subst hback
        rw [regexReplaceFrom_copy (escapedStar_run_backslash prev (escaped_head_ne_star pattern)),
          ih fuel _ hlen]
        rfl
      · rw [regexReplaceFrom_copy (escapedStar_run_other prev hback _),ih fuel _ hlen]
        rfl

/-- The expression that `wildcard_match` compiles, for any pattern. -/
theorem wildcardMatch_eq (target pattern : Text) : wildcardMatch target pattern =
    (parseRegex (pattern.flatMap rewritten)).map (fun r => regexMatch r target) := by
  have hreplace := replace_escaped pattern _ none le_rfl
  rw [wildcardMatch,escapeForRegex_eq,parse_escapedStar]
  change ((parseRegex (regexReplaceFrom _ _ _ ⟨none,escaped pattern⟩)).bind _) = _
  rw [hreplace]
  cases parseRegex (pattern.flatMap rewritten) <;> rfl

end UarchBench.Selection
