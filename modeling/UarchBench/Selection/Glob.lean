import UarchBench.Selection.Wildcard

/-! Wildcard patterns as globs. The class of characters to escape lacks the backslash, so that the
expression means the glob only where the missing escape does no harm: before a dash. -/
namespace UarchBench.Selection
open Base Util

/-- A star is any text, every other character is itself. -/
def globAtom (c : Char) : Language Char := if c = '*' then ⊤ else {[c]}

def glob (pattern : Text) : Language Char := (pattern.map globAtom).prod

/-- Every backslash is immediately followed by a dash. -/
def BackslashesBeforeDashes (pattern : Text) : Prop :=
  ∀ i, pattern[i]? = some '\\' → pattern[i+1]? = some '-'

lemma BackslashesBeforeDashes.tail {c : Char} {pattern : Text}
    (h : BackslashesBeforeDashes (c::pattern)) : BackslashesBeforeDashes pattern :=
  fun i hi => h (i+1) hi

def globTokens (c : Char) : List Token :=
  if c = '*' then [.set anyChar,.star] else [.set (ClassAtom.char c).test]

lemma rewritten_star : rewritten '*' = ['.','*'] := rfl

lemma rewritten_escaped {c : Char} (hstar : c ≠ '*') (h : escapedChars.contains c = true) :
    rewritten c = ['\\',c] := by rw [rewritten,if_neg hstar,if_pos h]

lemma rewritten_other {c : Char} (h : escapedChars.contains c = false) : rewritten c = [c] := by
  have hstar : c ≠ '*' := by
    rintro rfl
    exact absurd h (by decide)
  rw [rewritten,if_neg hstar,h]
  rfl

lemma escapedChars_not_word {c : Char} (h : escapedChars.contains c = true) :
    isWordChar c = false := by
  have hall : escapedChars.all (fun d => !isWordChar d) = true := by decide
  simpa using List.all_eq_true.mp hall c (by simpa using h)

/-- Among the characters with a meaning only the backslash is not escaped. -/
lemma not_mem_syntaxChars {c : Char} (h : escapedChars.contains c = false) (hback : c ≠ '\\') :
    c ∉ syntaxChars := by
  have hall : syntaxChars.all (fun d => d == '\\' || escapedChars.contains d) = true := by decide
  intro hmem
  have hc := List.all_eq_true.mp hall c hmem
  rw [h,Bool.or_false,beq_iff_eq] at hc
  exact hback hc

/-- One character of the pattern, where it is not a backslash: its tokens take a unit of fuel
each. -/
lemma scan_rewritten {c : Char} (hback : c ≠ '\\') (fuel : ℕ) (rest : Text) :
    scan (fuel+(globTokens c).length) (rewritten c ++ rest) =
      (scan fuel rest).map (globTokens c ++ ·) := by
  by_cases hstar : c = '*'
  · subst hstar
    exact scan_anything fuel rest
  · rw [globTokens,if_neg hstar]
    cases hesc : escapedChars.contains c with
    | true =>
      rw [rewritten_escaped hstar hesc]
      exact scan_escaped (escapedChars_not_word hesc) fuel rest
    | false =>
      rw [rewritten_other hesc]
      exact scan_literal (not_mem_syntaxChars hesc hback) fuel rest

lemma length_globTokens_le (c : Char) : (globTokens c).length ≤ (rewritten c).length := by
  rw [globTokens,rewritten]
  split_ifs <;> simp

/-- A backslash takes the backslash that escapes the dash behind it, and the dash needs none. -/
lemma scan_backslash_dash {fuel : ℕ} {rest : Text} {ts : List Token}
    (hrest : ∀ k, rest.length ≤ k → scan k rest = .ok ts)
    (hfuel : (rewritten '\\' ++ (rewritten '-' ++ rest)).length ≤ fuel) :
    scan fuel (rewritten '\\' ++ (rewritten '-' ++ rest)) =
      .ok (globTokens '\\' ++ (globTokens '-' ++ ts)) := by
  have hlen : rest.length+3 ≤ fuel := hfuel
  obtain ⟨fuel,rfl⟩ : ∃ k, fuel = k+2 := ⟨fuel-2,by omega⟩
  change scan (fuel+1+1) ('\\' :: '\\' :: '-'::rest) = _
  rw [scan_escaped (by decide),scan_literal (by decide),hrest fuel (by omega)]
  rfl

theorem scan_glob {pattern : Text} (h : BackslashesBeforeDashes pattern) (fuel : ℕ)
    (hfuel : (pattern.flatMap rewritten).length ≤ fuel) :
    scan fuel (pattern.flatMap rewritten) = .ok (pattern.flatMap globTokens) := by
  induction hn : pattern.length using Nat.strong_induction_on generalizing pattern fuel with
  | _ n ih =>
    cases pattern with
    | nil => cases fuel <;> rfl
    | cons c pattern =>
      simp only [List.flatMap_cons] at hfuel ⊢
      by_cases hback : c = '\\'
      · subst hback
        have hdash : pattern[0]? = some '-' := h 0 rfl
        cases pattern with
        | nil => contradiction
        | cons d pattern =>
          obtain rfl : d = '-' := by simpa using hdash
          simp only [List.flatMap_cons] at hfuel ⊢
          exact scan_backslash_dash
            (fun k hk => ih pattern.length (by simp at hn; omega) h.tail.tail k hk rfl) hfuel
      · have hlen := length_globTokens_le c
        rw [List.length_append] at hfuel
        obtain ⟨fuel,rfl⟩ : ∃ k, fuel = k+(globTokens c).length :=
          ⟨fuel-(globTokens c).length,by omega⟩
        rw [scan_rewritten hback,
          ih pattern.length (by simp at hn; omega) h.tail fuel (by omega) rfl]
        rfl

def globFactor (c : Char) : Regex :=
  if c = '*' then .star (.set anyChar) else .set (ClassAtom.char c).test

def globRegex : Text → Regex
  | [] => .empty
  | c::pattern => .seq (globFactor c) (globRegex pattern)

lemma quantified_globTokens (a : Regex) (pattern : Text) :
    quantified a (pattern.flatMap globTokens) = (a,pattern.flatMap globTokens) := by
  cases pattern with
  | nil => rfl
  | cons c pattern =>
    rw [List.flatMap_cons,globTokens]
    split_ifs <;> rfl

lemma parseAlternative_glob (pattern : Text) (fuel : ℕ) (hfuel : pattern.length < fuel) :
    parseAlternative fuel (pattern.flatMap globTokens) = .ok (globRegex pattern,[]) := by
  induction pattern generalizing fuel with
  | nil =>
    obtain ⟨fuel,rfl⟩ : ∃ k, fuel = k+1 := ⟨fuel-1,by omega⟩
    simp [parseAlternative,globRegex]
    rfl
  | cons c pattern ih =>
    obtain ⟨fuel,rfl⟩ : ∃ k, fuel = k+1 := ⟨fuel-1,by omega⟩
    have hlen : pattern.length < fuel := by simp at hfuel; omega
    rw [List.flatMap_cons,globTokens,globRegex,globFactor]
    split_ifs
    · simp only [List.cons_append,List.nil_append,parseAlternative,quantified,ih fuel hlen]
      rfl
    · simp only [List.cons_append,List.nil_append,parseAlternative,quantified_globTokens,
        ih fuel hlen]
      rfl

lemma length_le_globTokens (pattern : Text) :
    pattern.length ≤ (pattern.flatMap globTokens).length := by
  induction pattern with
  | nil => exact Nat.zero_le _
  | cons c pattern ih =>
    rw [List.flatMap_cons,List.length_append,List.length_cons,globTokens]
    split_ifs
    · simp only [List.length_cons,List.length_nil]
      omega
    · simp only [List.length_cons,List.length_nil]
      omega

theorem parseRegex_glob {pattern : Text} (h : BackslashesBeforeDashes pattern) :
    parseRegex (pattern.flatMap rewritten) = .ok (globRegex pattern) := by
  have hlen := length_le_globTokens pattern
  rw [parseRegex,scan_glob h _ le_rfl]
  change ((parseDisjunction (2*(pattern.flatMap globTokens).length+1+1) _).bind _) = _
  rw [parseDisjunction,parseAlternative_glob pattern _ (by omega)]
  rfl

lemma globRegex_plain (pattern : Text) : (globRegex pattern).Plain := by
  induction pattern with
  | nil => trivial
  | cons c pattern ih =>
    refine ⟨?_,ih⟩
    rw [globFactor]
    split_ifs <;> trivial

/-- A text without line terminators is a sequence of characters that the dot matches. -/
lemma mem_kstar_anyChar {text : Text} (h : ∀ c ∈ text, isLineTerminator c = false) :
    text ∈ (Regex.star (.set anyChar)).language := by
  refine Language.mem_kstar.mpr
    ⟨text.map (fun c => [c]),(List.flatMap_singleton' text).symm,fun w hw => ?_⟩
  obtain ⟨c,hc,rfl⟩ := List.mem_map.mp hw
  exact ⟨c,by rw [anyChar,h c hc]; rfl,rfl⟩

lemma globFactor_language (c : Char) {text : Text} (h : ∀ d ∈ text, isLineTerminator d = false) :
    text ∈ (globFactor c).language ↔ text ∈ globAtom c := by
  rw [globFactor,globAtom]
  split_ifs
  · exact ⟨fun _ => trivial,fun _ => mem_kstar_anyChar h⟩
  · constructor
    · rintro ⟨d,hd,rfl⟩
      rw [beq_iff_eq.mp hd]
      rfl
    · rintro rfl
      exact ⟨c,beq_self_eq_true c,rfl⟩

theorem globRegex_language (pattern : Text) {text : Text}
    (h : ∀ c ∈ text, isLineTerminator c = false) :
    text ∈ (globRegex pattern).language ↔ text ∈ glob pattern := by
  induction pattern generalizing text with
  | nil => rfl
  | cons c pattern ih =>
    rw [glob,List.map_cons,List.prod_cons]
    change text ∈ (globFactor c).language*(globRegex pattern).language ↔
      text ∈ globAtom c*glob pattern
    simp only [Language.mem_mul]
    constructor
    · rintro ⟨u,hu,v,hv,rfl⟩
      exact ⟨u,(globFactor_language c (fun d hd => h d (List.mem_append_left v hd))).mp hu,
        v,(ih (fun d hd => h d (List.mem_append_right u hd))).mp hv,rfl⟩
    · rintro ⟨u,hu,v,hv,rfl⟩
      exact ⟨u,(globFactor_language c (fun d hd => h d (List.mem_append_left v hd))).mpr hu,
        v,(ih (fun d hd => h d (List.mem_append_right u hd))).mpr hv,rfl⟩

theorem wildcardMatch_globRegex {pattern : Text} (h : BackslashesBeforeDashes pattern)
    (target : Text) :
    wildcardMatch target pattern = .ok (regexMatch (globRegex pattern) target) := by
  rw [wildcardMatch_eq,parseRegex_glob h]
  rfl

theorem regexMatch_globRegex (pattern : Text) {target : Text}
    (hline : ∀ c ∈ target, isLineTerminator c = false) :
    regexMatch (globRegex pattern) target = true ↔ target ∈ glob pattern := by
  rw [regexMatch_iff (globRegex_plain pattern)]
  exact globRegex_language pattern hline

lemma mem_glob_self (pattern : Text) : pattern ∈ glob pattern := by
  induction pattern with
  | nil => rfl
  | cons c pattern ih =>
    rw [glob,List.map_cons,List.prod_cons]
    refine Language.append_mem_mul (a := [c]) ?_ ih
    rw [globAtom]
    split_ifs
    · trivial
    · rfl

end UarchBench.Selection
