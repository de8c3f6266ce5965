import UarchBench.Base.RegexWeight
import UarchBench.Selection.Glob

/-! What becomes of a backslash that is not before a dash: it takes a character of the pattern
along, or its own place. The characters that the rewriting treats specially get weights such that
the expression then has a match lighter than every text of the glob. -/
namespace UarchBench.Selection
open Base Util

/-- The weights make up for what a stray backslash saves: a plus is a set with its repetition, and
a pair of brackets is one set. -/
def glyphWeight (c : Char) : ℕ :=
  if c = '\\' then 3
  else if c = '+' then 7
  else if c = '[' ∨ c = ']' then 4
  else if c ≠ '*' ∧ escapedChars.contains c then 1
  else 0

abbrev NoLineTerminator (c : Char) : Prop := isLineTerminator c = false

lemma glyphWeight_le (c : Char) : glyphWeight c ≤ 7 := by
  unfold glyphWeight
  split_ifs <;> omega

lemma glyphWeight_ne_zero {c : Char} (h : glyphWeight c ≠ 0) : c ∈ '\\'::escapedChars := by
  unfold glyphWeight at h
  split_ifs at h with hback hplus hbracket hesc
  · rw [hback]
    exact List.mem_cons_self
  · rw [hplus]
    decide
  · rcases hbracket with rfl | rfl <;> decide
  · exact List.mem_cons_of_mem _ (by simpa using hesc.2)
  · contradiction

lemma glyphWeight_not_word {c : Char} (h : glyphWeight c ≠ 0) : isWordChar c = false := by
  have hall : ('\\'::escapedChars).all (fun d => !isWordChar d) = true := by decide
  simpa using List.all_eq_true.mp hall c (glyphWeight_ne_zero h)

lemma glyphWeight_not_space {c : Char} (h : glyphWeight c ≠ 0) : isSpace c = false := by
  have hall : ('\\'::escapedChars).all (fun d => !isSpace d) = true := by decide
  simpa using List.all_eq_true.mp hall c (glyphWeight_ne_zero h)

lemma slash_spare : Spare glyphWeight NoLineTerminator '/' where
  good := by decide
  light := by decide
  alike _ h := glyphWeight_not_word h

abbrev textWeight (text : Text) : ℕ := weightOf glyphWeight text

lemma textWeight_append (u v : Text) :
    textWeight (u ++ v) = textWeight u+textWeight v := weightOf_append _ u v

lemma textWeight_cons (c : Char) (u : Text) :
    textWeight (c::u) = glyphWeight c+textWeight u := weightOf_cons _ c u

/-- A star has no weight. -/
lemma textWeight_le_glob {pattern text : Text} (h : text ∈ glob pattern) :
    textWeight pattern ≤ textWeight text := by
  induction pattern generalizing text with
  | nil => exact Nat.zero_le _
  | cons c pattern ih =>
    rw [glob,List.map_cons,List.prod_cons] at h
    obtain ⟨u,hu,v,hv,rfl⟩ := Language.mem_mul.mp h
    have htail := ih hv
    have hhead : glyphWeight c ≤ textWeight u := by
      rw [globAtom] at hu
      split_ifs at hu with hstar
      · rw [hstar]
        exact Nat.zero_le _
      · rw [show u = [c] from hu,textWeight_cons]
        exact Nat.le_add_right _ _
    rw [textWeight_cons,textWeight_append]
    exact Nat.add_le_add hhead htail

/-- The shortest text of the glob. -/
lemma literal_mem_glob (pattern : Text) : pattern.filter (· ≠ '*') ∈ glob pattern := by
  induction pattern with
  | nil => rfl
  | cons c pattern ih =>
    rw [glob,List.map_cons,List.prod_cons,List.filter_cons]
    by_cases hstar : c = '*'
    · rw [if_neg (by simpa using hstar)]
      refine Language.append_mem_mul (a := []) ?_ ih
      rw [globAtom,if_pos hstar]
      trivial
    · rw [if_pos (by simpa using hstar)]
      refine Language.append_mem_mul (a := [c]) ?_ ih
      rw [globAtom,if_neg hstar]
      rfl

/-- The tokens are as heavy as the pattern at most, and lighter if a backslash is stray. -/
def ScansLight (pattern : Text) (ts : List Token) : Prop :=
  ∃ k, LightTokens glyphWeight '/' ts k ∧ k ≤ textWeight pattern ∧
    (¬ BackslashesBeforeDashes pattern → k < textWeight pattern)

lemma ScansLight.of_lt {pattern : Text} {ts : List Token} {k : ℕ}
    (hts : LightTokens glyphWeight '/' ts k) (hlt : k < textWeight pattern) :
    ScansLight pattern ts := ⟨k,hts,hlt.le,fun _ => hlt⟩

lemma lightSet_char (c : Char) :
    LightSet glyphWeight '/' (ClassAtom.char c).test (glyphWeight c) :=
  Or.inr (fun x hx => by rw [beq_iff_eq.mp hx])

lemma lightSet_any (chars : Char → Bool) : LightSet glyphWeight '/' chars 7 :=
  Or.inr (fun x _ => glyphWeight_le x)

/-- A bracket in the rewritten pattern is a bracket of the pattern. -/
lemma closing_bracket {pattern rest : Text} (h : ']'::rest <:+ pattern.flatMap rewritten) :
    ∃ before after, pattern = before ++ ']'::after ∧ rest = after.flatMap rewritten := by
  induction pattern with
  | nil => simp at h
  | cons c pattern ih =>
    have htail : ']'::rest <:+ pattern.flatMap rewritten →
        ∃ before after, c::pattern = before ++ ']'::after ∧ rest = after.flatMap rewritten := by
      intro h
      obtain ⟨before,after,rfl,hrest⟩ := ih h
      exact ⟨c::before,after,rfl,hrest⟩
    obtain ⟨left,hleft⟩ := h
    rw [List.flatMap_cons,List.append_eq_append_iff] at hleft
    rcases hleft with ⟨piece,hpiece,hrest⟩ | ⟨piece,-,hrest⟩
    · cases piece with
      | nil => exact htail (hrest ▸ List.suffix_refl _)
      | cons d piece =>
        rw [List.cons_append,List.cons.injEq] at hrest
        obtain ⟨rfl,hrest⟩ := hrest
        have hc : c = ']' ∧ piece = [] := by
          rw [rewritten] at hpiece
          split_ifs at hpiece
          · rcases left with _ | ⟨x,_ | ⟨y,left⟩⟩ <;> simp at hpiece
          · rcases left with _ | ⟨x,_ | ⟨y,left⟩⟩ <;> simp at hpiece
            exact ⟨hpiece.2.1,hpiece.2.2⟩
          · rcases left with _ | ⟨x,left⟩ <;> simp at hpiece
            exact hpiece
        obtain ⟨rfl,rfl⟩ := hc
        exact ⟨[],pattern,rfl,hrest⟩
    · exact htail (hrest ▸ List.suffix_append piece _)

section Scan
variable {pattern : Text} {fuel : ℕ} {ts : List Token}

/-- The induction hypothesis for what follows in the pattern. -/
def ScansLightUpTo (n : ℕ) : Prop :=
  ∀ (pattern : Text) (fuel : ℕ) (ts : List Token), pattern.length ≤ n →
    (pattern.flatMap rewritten).length ≤ fuel →
    scan fuel (pattern.flatMap rewritten) = .ok ts → ScansLight pattern ts

/-- A character whose escape has been used up by a backslash before it. -/
lemma scan_raw_punctuator (ih : ScansLightUpTo pattern.length) {c : Char} {t : Token}
    (hc : punctuator c = some t) (hfuel : (pattern.flatMap rewritten).length < fuel)
    (h : scan fuel (c::pattern.flatMap rewritten) = .ok ts) :
    ∃ ts', ts = t::ts' ∧ ScansLight pattern ts' := by
  obtain ⟨fuel,rfl⟩ : ∃ k, fuel = k+1 := ⟨fuel-1,by omega⟩
  rw [scan_punctuator hc] at h
  obtain ⟨ts',hts',rfl⟩ := map_ok h
  exact ⟨ts',rfl,ih pattern fuel ts' le_rfl (by omega) hts'⟩

/-- A raw opening bracket: its expression runs up to a closing bracket of the pattern. -/
lemma scan_raw_bracket (ih : ScansLightUpTo pattern.length)
    (hfuel : (pattern.flatMap rewritten).length < fuel)
    (h : scan fuel ('['::pattern.flatMap rewritten) = .ok ts) :
    ∃ (chars : Char → Bool) (ts' : List Token) (before after : Text), ts = .set chars::ts' ∧
      pattern = before ++ ']'::after ∧ ScansLight after ts' := by
  obtain ⟨fuel,rfl⟩ : ∃ k, fuel = k+1 := ⟨fuel-1,by omega⟩
  have hitems : ∃ n s chars chars' rest ts', classItems n s = .ok (chars,rest) ∧
      s <:+ pattern.flatMap rewritten ∧ scan fuel rest = .ok ts' ∧ ts = .set chars'::ts' := by
    rw [scan.eq_def] at h
    simp only [show ¬ '[' = '\\' by decide,↓reduceIte] at h
    split_ifs at h
    · obtain ⟨⟨chars,rest⟩,hchars,h⟩ := bind_eq_ok.mp h
      obtain ⟨ts',hts',rfl⟩ := map_ok h
      exact ⟨_,_,_,_,_,_,hchars,List.tail_suffix _,hts',rfl⟩
    · obtain ⟨⟨chars,rest⟩,hchars,h⟩ := bind_eq_ok.mp h
      obtain ⟨ts',hts',rfl⟩ := map_ok h
      exact ⟨_,_,_,_,_,_,hchars,List.suffix_refl _,hts',rfl⟩
  obtain ⟨n,s,chars,chars',rest,ts',hchars,hs,hts',rfl⟩ := hitems
  obtain ⟨before,after,rfl,rfl⟩ := closing_bracket ((classItems_closed hchars).trans hs)
  refine ⟨chars',ts',before,after,rfl,rfl,ih after fuel ts' ?_ ?_ hts'⟩
  · rw [List.length_append,List.length_cons]
    omega
  · rw [List.flatMap_append,List.length_append,List.flatMap_cons,List.length_append] at hfuel
    omega

lemma textWeight_stray (c : Char) (pattern : Text) :
    textWeight ('\\'::c::pattern) = 3+(glyphWeight c+textWeight pattern) := by
  rw [textWeight_cons,textWeight_cons]
  rfl

/-- The token of a backslash that stands for itself. -/
abbrev backslashToken : Token := .set (ClassAtom.char '\\').test

/-- A stray backslash in front of an escaped character leaves that character raw. -/
lemma scan_stray_escaped (ih : ScansLightUpTo pattern.length) {c : Char}
    (hc : escapedChars.contains c = true) (hstar : c ≠ '*') (hdash : c ≠ '-')
    (hfuel : (pattern.flatMap rewritten).length < fuel)
    (h : scan fuel (c::pattern.flatMap rewritten) = .ok ts) :
    ScansLight ('\\'::c::pattern) (backslashToken::ts) := by
  have hbackslash : LightSet glyphWeight '/' (ClassAtom.char '\\').test 3 := lightSet_char '\\'
  have hstructural : ∀ {t}, punctuator c = some t → Structural t → 0 < glyphWeight c →
      ScansLight ('\\'::c::pattern) (backslashToken::ts) := by
    intro t ht hstructural hweight
    obtain ⟨ts',rfl,j,hts',hle,-⟩ := scan_raw_punctuator ih ht hfuel h
    refine .of_lt (.set hbackslash (.structural hstructural hts')) ?_
    rw [textWeight_stray]
    omega
  have hmem : c ∈ escapedChars := by simpa using hc
  simp only [escapedChars,List.mem_cons,List.not_mem_nil,or_false] at hmem
  rcases hmem with rfl | rfl | rfl | rfl | rfl | rfl | rfl | rfl | rfl | rfl | rfl | rfl | rfl | rfl
  · contradiction
  -- an opening bracket, with the closing bracket that ends its expression
  · obtain ⟨chars,ts',before,after,rfl,rfl,j,hts',hle,-⟩ := scan_raw_bracket ih hfuel h
    refine .of_lt (.set hbackslash (.set (lightSet_any chars) hts')) ?_
    have hbracket : glyphWeight '[' = 4 := rfl
    have hclose : glyphWeight ']' = 4 := rfl
    rw [textWeight_stray,textWeight_append,textWeight_cons]
    omega
  -- a closing bracket or a brace
  · cases fuel <;> cases h
  · cases fuel <;> cases h
  · cases fuel <;> cases h
  · exact hstructural rfl trivial (by decide)
  · exact hstructural rfl trivial (by decide)
  · contradiction
  · obtain ⟨ts',rfl,j,hts',hle,-⟩ := scan_raw_punctuator ih rfl hfuel h
    refine .of_lt (.plus hbackslash hts') ?_
    have hplus : glyphWeight '+' = 7 := rfl
    rw [textWeight_stray]
    omega
  · obtain ⟨ts',rfl,j,hts',hle,-⟩ := scan_raw_punctuator ih rfl hfuel h
    refine .of_lt (.opt hbackslash hts') ?_
    have hopt : glyphWeight '?' = 1 := rfl
    rw [textWeight_stray]
    omega
  · obtain ⟨ts',rfl,j,hts',hle,-⟩ := scan_raw_punctuator ih rfl hfuel h
    have hany : LightSet glyphWeight '/' anyChar 0 := Or.inl (by decide)
    refine .of_lt (.set hbackslash (.set hany hts')) ?_
    have hdot : glyphWeight '.' = 1 := rfl
    rw [textWeight_stray]
    omega
  -- a caret, a dollar sign or a bar
  · exact hstructural rfl trivial (by decide)
  · exact hstructural rfl trivial (by decide)
  · exact hstructural rfl trivial (by decide)

lemma lightSet_word_space {chars : Char → Bool}
    (h : ∀ x, chars x = true → isWordChar x = true ∨ isSpace x = true) :
    LightSet glyphWeight '/' chars 0 := by
  refine Or.inr (fun x hx => ?_)
  by_contra hweight
  have hne : glyphWeight x ≠ 0 := fun hzero => hweight hzero.le
  rcases h x hx with hword | hspace
  · rw [glyphWeight_not_word hne] at hword
    contradiction
  · rw [glyphWeight_not_space hne] at hspace
    contradiction

/-- An escape that the pattern did not ask for takes no character with a weight. -/
lemma escapeAtom_light {c : Char} (hesc : escapedChars.contains c = false) (hback : c ≠ '\\')
    {a : ClassAtom} (h : escapeAtom c = .ok a) : LightSet glyphWeight '/' a.test 0 := by
  have hweight : glyphWeight c = 0 := by
    by_contra hne
    rcases List.mem_cons.mp (glyphWeight_ne_zero hne) with heq | hmem
    · exact hback heq
    · rw [List.contains_iff_mem.mpr hmem] at hesc
      contradiction
  rw [escapeAtom] at h
  cases hclass : characterClass c with
  | some chars =>
    rw [hclass] at h
    cases h
    unfold characterClass at hclass
    split at hclass <;> cases hclass
    · refine lightSet_word_space (fun x hx => Or.inl ?_)
      rw [isWordChar,Char.isAlphanum,show x.isDigit = true from hx,Bool.or_true,Bool.true_or]
    · exact Or.inl (by decide)
    · exact lightSet_word_space (fun x hx => Or.inr hx)
    · exact Or.inl (by decide)
    · exact lightSet_word_space (fun x hx => Or.inl hx)
    · exact Or.inl (by decide)
  | none =>
    rw [hclass] at h
    cases hcontrol : controlEscape c with
    | some d =>
      rw [hcontrol] at h
      cases h
      have hd : glyphWeight d = 0 := by
        unfold controlEscape at hcontrol
        split at hcontrol <;> cases hcontrol <;> rfl
      exact hd ▸ lightSet_char d
    | none =>
      rw [hcontrol] at h
      simp only at h
      split_ifs at h
      cases h
      exact hweight ▸ lightSet_char c

lemma BackslashesBeforeDashes.cons {c : Char} {pattern : Text} (hback : c ≠ '\\')
    (h : BackslashesBeforeDashes pattern) : BackslashesBeforeDashes (c::pattern) := by
  intro i hi
  cases i with
  | zero => exact absurd (by simpa using hi) hback
  | succ i => exact h i hi

lemma BackslashesBeforeDashes.cons_dash {pattern : Text} (h : BackslashesBeforeDashes pattern) :
    BackslashesBeforeDashes ('\\' :: '-' :: pattern) := by
  intro i hi
  cases i with
  | zero => rfl
  | succ i => exact (h.cons (by decide : '-' ≠ '\\')) i hi

/-- A character that is not a backslash weighs what its tokens weigh. -/
lemma ScansLight.cons {c : Char} (hback : c ≠ '\\') (h : ScansLight pattern ts) :
    ScansLight (c::pattern) (globTokens c ++ ts) := by
  obtain ⟨k,hts,hle,hlt⟩ := h
  have hstray : ¬ BackslashesBeforeDashes (c::pattern) → k < textWeight pattern :=
    fun hc => hlt (fun h => hc (h.cons hback))
  rw [globTokens]
  split_ifs with hstar
  · have hany : LightSet glyphWeight '/' anyChar 0 := Or.inl (by decide)
    have hzero : glyphWeight c = 0 := by
      rw [hstar]
      rfl
    refine ⟨2*0+k,.star hany hts,?_,fun hc => ?_⟩
    · rw [textWeight_cons]
      omega
    · have := hstray hc
      rw [textWeight_cons]
      omega
  · refine ⟨glyphWeight c+k,.set (lightSet_char c) hts,?_,fun hc => ?_⟩
    · rw [textWeight_cons]
      omega
    · have := hstray hc
      rw [textWeight_cons]
      omega

/-- The star of a raw dot repeats the dot that a backslash has escaped. -/
lemma scan_stray_star (ih : ScansLightUpTo pattern.length)
    (hfuel : (pattern.flatMap rewritten).length ≤ fuel)
    (h : scan (fuel+2) ('\\' :: '.' :: '*' :: pattern.flatMap rewritten) = .ok ts) :
    ScansLight ('\\' :: '*' :: pattern) ts := by
  rw [scan_escaped (by decide)] at h
  obtain ⟨ts',hscan,rfl⟩ := map_ok h
  rw [scan_punctuator rfl] at hscan
  obtain ⟨ts'',hscan',rfl⟩ := map_ok hscan
  obtain ⟨k,hts,hle,-⟩ := ih pattern fuel ts'' le_rfl hfuel hscan'
  refine .of_lt (.star (lightSet_char '.') hts) ?_
  have hdot : glyphWeight '.' = 1 := rfl
  rw [textWeight_stray]
  omega

/-- A backslash before a dash escapes the one that the rewriting adds. -/
lemma scan_dash (ih : ScansLightUpTo pattern.length)
    (hfuel : (pattern.flatMap rewritten).length < fuel)
    (h : scan fuel ('-'::pattern.flatMap rewritten) = .ok ts) :
    ScansLight ('\\' :: '-' :: pattern) (backslashToken::ts) := by
  obtain ⟨fuel,rfl⟩ : ∃ k, fuel = k+1 := ⟨fuel-1,by omega⟩
  rw [scan_literal (by decide)] at h
  obtain ⟨ts',hscan,rfl⟩ := map_ok h
  obtain ⟨k,hts,hle,hlt⟩ := ih pattern fuel ts' le_rfl (by omega) hscan
  have hback : glyphWeight '\\' = 3 := rfl
  refine ⟨_,.set (lightSet_char '\\') (.set (lightSet_char '-') hts),?_,fun hstray => ?_⟩
  · rw [textWeight_stray]
    omega
  · have := hlt (fun h => hstray h.cons_dash)
    rw [textWeight_stray]
    omega

/-- A character that the rewriting leaves alone becomes part of an escape. -/
lemma scan_stray_other (ih : ScansLightUpTo pattern.length) {c : Char}
    (hesc : escapedChars.contains c = false) (hfuel : (pattern.flatMap rewritten).length ≤ fuel)
    (h : scan (fuel+1) ('\\'::c::pattern.flatMap rewritten) = .ok ts) :
    ScansLight ('\\'::c::pattern) ts := by
  have hback : glyphWeight '\\' = 3 := rfl
  by_cases hc : c = '\\'
  · subst hc
    rw [scan_escaped (by decide)] at h
    obtain ⟨ts',hscan,rfl⟩ := map_ok h
    obtain ⟨k,hts,hle,-⟩ := ih pattern fuel ts' le_rfl hfuel hscan
    refine .of_lt (.set (lightSet_char '\\') hts) ?_
    rw [textWeight_stray]
    omega
  · simp only [scan,if_true] at h
    split_ifs at h with hb
    · obtain ⟨ts',hscan,rfl⟩ := map_ok h
      obtain ⟨k,hts,hle,-⟩ := ih pattern fuel ts' le_rfl hfuel hscan
      refine .of_lt (.structural trivial hts) ?_
      rw [textWeight_stray]
      omega
    · obtain ⟨a,ha,h⟩ := bind_eq_ok.mp h
      obtain ⟨ts',hscan,rfl⟩ := map_ok h
      obtain ⟨k,hts,hle,-⟩ := ih pattern fuel ts' le_rfl hfuel hscan
      refine .of_lt (.set (escapeAtom_light hesc hc ha) hts) ?_
      rw [textWeight_stray]
      omega

/-- A backslash and the character that it takes along. -/
lemma scan_stray (ih : ScansLightUpTo pattern.length) {c : Char}
    (hfuel : ('\\'::(rewritten c ++ pattern.flatMap rewritten)).length ≤ fuel)
    (h : scan fuel ('\\'::(rewritten c ++ pattern.flatMap rewritten)) = .ok ts) :
    ScansLight ('\\'::c::pattern) ts := by
  rw [List.length_cons,List.length_append] at hfuel
  obtain ⟨fuel,rfl⟩ : ∃ k, fuel = k+1 := ⟨fuel-1,by omega⟩
  by_cases hstar : c = '*'
  · subst hstar
    simp only [rewritten_star,List.length_cons,List.length_nil] at hfuel
    obtain ⟨fuel,rfl⟩ : ∃ k, fuel = k+1 := ⟨fuel-1,by omega⟩
    exact scan_stray_star ih (by omega) h
  · cases hesc : escapedChars.contains c with
    | true =>
      rw [rewritten_escaped hstar hesc] at h hfuel
      simp only [List.length_cons,List.length_nil] at hfuel
      change scan (fuel+1) ('\\' :: '\\' :: c::pattern.flatMap rewritten) = _ at h
      rw [scan_escaped (by decide)] at h
      obtain ⟨ts',hscan,rfl⟩ := map_ok h
      by_cases hdash : c = '-'
      · subst hdash
        exact scan_dash ih (by omega) hscan
      · exact scan_stray_escaped ih hesc hstar hdash (by omega) hscan
    | false =>
      rw [rewritten_other hesc] at h hfuel
      simp only [List.length_cons,List.length_nil] at hfuel
      exact scan_stray_other ih hesc (by omega) h

theorem scan_light (n : ℕ) : ScansLightUpTo n := by
  induction n using Nat.strong_induction_on with
  | _ n ih =>
    intro pattern fuel ts hn hfuel h
    cases pattern with
    | nil =>
      have hts : ts = [] := by cases fuel <;> cases h <;> rfl
      subst hts
      exact ⟨0,.nil,le_rfl,fun hstray => absurd nofun hstray⟩
    | cons c pattern =>
      rw [List.length_cons] at hn
      have hih : ∀ m < n, ScansLightUpTo m := ih
      rw [List.flatMap_cons] at hfuel h
      by_cases hback : c = '\\'
      · subst hback
        cases pattern with
        | nil => cases fuel <;> cases h
        | cons d pattern =>
          rw [List.length_cons] at hn
          exact scan_stray (hih pattern.length (by omega)) hfuel h
      · have hlen := length_globTokens_le c
        rw [List.length_append] at hfuel
        obtain ⟨fuel,rfl⟩ : ∃ k, fuel = k+(globTokens c).length :=
          ⟨fuel-(globTokens c).length,by omega⟩
        rw [scan_rewritten hback] at h
        obtain ⟨ts',hscan,rfl⟩ := map_ok h
        exact .cons hback (hih pattern.length (by omega) pattern fuel ts' le_rfl (by omega) hscan)

end Scan

/-- The match does not throw and decides the glob. -/
def DecidesGlob (target pattern : Text) : Prop :=
  ∃ b, wildcardMatch target pattern = .ok b ∧ (b = true ↔ target ∈ glob pattern)

lemma decidesGlob_of_dashes {pattern : Text} (h : BackslashesBeforeDashes pattern) {target : Text}
    (hline : ∀ c ∈ target, NoLineTerminator c) : DecidesGlob target pattern :=
  ⟨_,wildcardMatch_globRegex h target,regexMatch_globRegex pattern hline⟩

lemma parse_lightens {pattern : Text} {r : Regex}
    (h : parseRegex (pattern.flatMap rewritten) = .ok r)
    (hstray : ¬ BackslashesBeforeDashes pattern) :
    ∃ k < textWeight pattern, Lightens glyphWeight NoLineTerminator r k := by
  obtain ⟨ts,hscan,h⟩ := bind_eq_ok.mp h
  obtain ⟨⟨r',rest⟩,hparse,h⟩ := bind_eq_ok.mp h
  simp only at h
  split_ifs at h
  cases h
  obtain ⟨k,hts,-,hlt⟩ := scan_light pattern.length pattern _ ts le_rfl le_rfl hscan
  obtain ⟨i,j,hle,hlight,-⟩ := (parse_splitsWeight slash_spare _).1 hts hparse
  have hk := hlt hstray
  exact ⟨i,by omega,hlight⟩

/-- Under a stray backslash an expression that matches the shortest text of the glob also matches
a text that is too light for the glob. -/
lemma dashes_of_decidesGlob {pattern : Text} (hpattern : ∀ c ∈ pattern, NoLineTerminator c)
    (h : ∀ target : Text, (∀ c ∈ target, NoLineTerminator c) → DecidesGlob target pattern) :
    BackslashesBeforeDashes pattern := by
  by_contra hstray
  have hliteral : ∀ c ∈ pattern.filter (· ≠ '*'), NoLineTerminator c :=
    fun c hc => hpattern c (List.mem_of_mem_filter hc)
  obtain ⟨b,hb,hglob⟩ := h _ hliteral
  rw [wildcardMatch_eq] at hb
  obtain ⟨r,hr,rfl⟩ := map_ok hb
  obtain ⟨k,hk,hlight⟩ := parse_lightens hr hstray
  obtain ⟨text,hweight,hline,hmatch⟩ :=
    regexMatch_lightens hlight (hglob.mpr (literal_mem_glob pattern)) hliteral
  obtain ⟨b',hb',hglob'⟩ := h text hline
  rw [wildcardMatch_eq,hr] at hb'
  cases hb'
  exact absurd (textWeight_le_glob (hglob'.mp hmatch)) (Nat.not_le_of_lt (hweight.trans_lt hk))

/-- Numeric escapes and back-references are not modelled. -/
def UnmodelledEscape (pattern : Text) : Prop :=
  ∃ i, pattern[i]? = some '\\' ∧
    ∃ c ∈ ['1','2','3','4','5','6','7','8','9','x','u','c'], pattern[i+1]? = some c

/-- The match decides the glob if every backslash is before a dash. For other patterns without
line terminators it does not, as far as their escapes are modelled. -/
theorem wildcardMatch_decides_glob (pattern : Text) :
    (BackslashesBeforeDashes pattern →
      ∀ target : Text, (∀ c ∈ target, isLineTerminator c = false) → DecidesGlob target pattern) ∧
    ((∀ c ∈ pattern, isLineTerminator c = false) → ¬ UnmodelledEscape pattern →
      (∀ target : Text, (∀ c ∈ target, isLineTerminator c = false) → DecidesGlob target pattern) →
      BackslashesBeforeDashes pattern) :=
  ⟨fun h _ hline => decidesGlob_of_dashes h hline,
    fun hpattern _ h => dashes_of_decidesGlob hpattern h⟩

/-- Stars, an escaped dash, a backslash that does no harm and a character that is escaped. -/
theorem wildcardMatch_decides_glob_path :
    DecidesGlob ['a','/','b','\\','-','c'] ['a','*','\\','-','*'] := by
  refine (wildcardMatch_decides_glob _).1 (fun i hi => ?_) _ (fun c hc => ?_)
  · rcases i with _ | _ | _ | _ | _ | i
    all_goals simp at hi ⊢
  · have hall : ['a','/','b','\\','-','c'].all (fun c => !isLineTerminator c) = true := by decide
    simpa using List.all_eq_true.mp hall c hc

/-- A backslash alone is an unfinished escape, and the constructor of the expression throws. -/
theorem wildcardMatch_backslash_throws : ¬ ∀ target pattern : Text,
    (∀ c ∈ target, isLineTerminator c = false) → DecidesGlob target pattern := by
  intro h
  obtain ⟨b,hb,-⟩ := h [] ['\\'] (fun c hc => absurd hc List.not_mem_nil)
  exact absurd hb (by rw [wildcardMatch_eq]; exact nofun)

end UarchBench.Selection
