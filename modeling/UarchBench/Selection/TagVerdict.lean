import UarchBench.Selection.Glob
import UarchBench.Selection.TagMatcher

/-! The verdict of a tag matcher. It looks at the patterns in order and ends with an exception at
one that compiles to no expression, unless one before it has matched the first tag. -/
namespace UarchBench.Selection.TagMatcher
open Base Util

/-- A pattern for which no expression is compiled. -/
def Refused (pattern : Text) : Prop := ∀ tag, ∃ e, wildcardMatch tag pattern = .error e

/-- Whether a pattern throws does not depend on the tag. -/
lemma refused_iff (tag pattern : Text) :
    Refused pattern ↔ ∃ e, wildcardMatch tag pattern = .error e := by
  refine ⟨fun h => h tag,fun ⟨e,he⟩ other => ?_⟩
  rw [wildcardMatch_eq] at he ⊢
  cases hparse : parseRegex (pattern.flatMap rewritten) with
  | error e => exact ⟨e,rfl⟩
  | ok r =>
    rw [hparse] at he
    cases he

lemma not_refused_of_dashes {pattern : Text} (h : BackslashesBeforeDashes pattern) :
    ¬ Refused pattern := by
  intro hrefused
  obtain ⟨e,he⟩ := hrefused []
  rw [wildcardMatch_globRegex h] at he
  cases he

lemma dashes_of_no_backslash {pattern : Text} (h : '\\' ∉ pattern) :
    BackslashesBeforeDashes pattern :=
  fun _ hi => absurd (List.mem_of_getElem? hi) h

/-- A pattern that matches the first tag stands before every refused one. -/
def Guarded (tags patterns : List Text) : Prop :=
  ∀ tag ∈ tags.head?, ∀ before bad after, patterns = before ++ bad::after → Refused bad →
    ∃ pattern ∈ before, wildcardMatch tag pattern = .ok true

/-- Without stray backslashes nothing throws. -/
lemma guarded_of_dashes {patterns : List Text}
    (h : ∀ p ∈ patterns, BackslashesBeforeDashes p) (tags : List Text) :
    Guarded tags patterns := by
  rintro tag - before bad after rfl hbad
  have hmem := List.mem_append_right before (List.mem_cons_self (a := bad) (l := after))
  exact absurd hbad (not_refused_of_dashes (h bad hmem))

lemma guarded_cons_iff (tag : Text) (tags patterns : List Text) :
    Guarded (tag::tags) patterns ↔
      ∃ b, patterns.anyM (fun pattern => wildcardMatch tag pattern) = .ok b := by
  rw [anyM_returns_iff]
  constructor
  · intro h before bad after hp hbad
    exact h tag rfl before bad after hp ((refused_iff tag bad).mpr hbad)
  · intro h first hfirst before bad after hp hbad
    obtain rfl : tag = first := Option.some.inj hfirst
    exact h before bad after hp (hbad tag)

theorem matchesAny_returns_iff (tags patterns : List Text) :
    (∃ b, matchesAny tags patterns = .ok b) ↔ Guarded tags patterns := by
  cases tags with
  | nil => exact iff_of_true ⟨false,rfl⟩ (fun tag htag => by cases htag)
  | cons tag tags =>
    rw [guarded_cons_iff,matchesAny,List.anyM]
    cases hfirst : patterns.anyM (fun pattern => wildcardMatch tag pattern) with
    | error e => exact iff_of_false (error_no_result e) (error_no_result e)
    | ok b =>
      refine iff_of_true ?_ ⟨b,rfl⟩
      cases b with
      | true => exact ⟨true,rfl⟩
      | false =>
        -- every pattern has been tried, so that none of them throws for the other tags
        have hnone := anyM_false hfirst
        change ∃ b, matchesAny tags patterns = .ok b
        refine (anyM_returns_iff tags).mpr (fun _ other _ _ hother => ?_)
        obtain ⟨e,he⟩ := hother
        have hreturns := (anyM_returns_iff (f := fun pattern => wildcardMatch other pattern)
          patterns).mpr (fun before bad after hp hbad => ?_)
        · obtain ⟨b,hb⟩ := hreturns
          rw [hb] at he
          cases he
        · have hthrows := (refused_iff other bad).mpr hbad tag
          obtain ⟨e,he⟩ := hthrows
          have hmem : bad ∈ patterns := by
            rw [hp]
            exact List.mem_append_right before List.mem_cons_self
          rw [hnone bad hmem] at he
          cases he

theorem accepts_returns_iff (matcher : TagMatcher) (tags : List Text) :
    (∃ b, matcher.accepts tags = .ok b) ↔
      Guarded tags matcher.yesPatterns ∧ Guarded tags matcher.noPatterns := by
  rw [← matchesAny_returns_iff,← matchesAny_returns_iff,accepts]
  cases hyes : matchesAny tags matcher.yesPatterns with
  | error e => exact iff_of_false (error_no_result e) (fun h => error_no_result e h.1)
  | ok yes =>
    cases hno : matchesAny tags matcher.noPatterns with
    | error e => exact iff_of_false (error_no_result e) (fun h => error_no_result e h.2)
    | ok no => exact iff_of_true ⟨_,rfl⟩ ⟨⟨yes,rfl⟩,⟨no,rfl⟩⟩

/-- The verdict of the matcher for a joined list of patterns. -/
def verdict (ps tags : List Text) : Except RegexError Bool :=
  (construct ([','].intercalate ps)).accepts tags

def positives (ps : List Text) : List Text := ps.filter (fun p => p.head? ≠ some '~')

/-- The negative patterns without their tildes. -/
def remainders (ps : List Text) : List Text :=
  (ps.filter (fun p => p.head? = some '~')).map List.tail

/-- No remainder matches a tag, and if there are positive patterns one of them does. -/
def Acceptable (ps tags : List Text) : Prop :=
  (¬ ∃ p, '~'::p ∈ ps ∧ ∃ tag ∈ tags, wildcardMatch tag p = .ok true) ∧
    ((¬ ∃ p ∈ ps, p.head? ≠ some '~') ∨
      ∃ p ∈ ps, p.head? ≠ some '~' ∧ ∃ tag ∈ tags, wildcardMatch tag p = .ok true)

/-- The conditions on the pattern lists of the command line. -/
structure CommaFree (ps : List Text) : Prop where
  nonempty : ps ≠ []
  no_comma : ∀ p ∈ ps, ',' ∉ p

lemma CommaFree.of_members {ps ps' : List Text} (h : CommaFree ps)
    (hps : ∀ p, p ∈ ps ↔ p ∈ ps') : CommaFree ps' where
  nonempty := by
    obtain ⟨p,hp⟩ := List.exists_mem_of_ne_nil ps h.nonempty
    exact List.ne_nil_of_mem ((hps p).mp hp)
  no_comma p hp := h.no_comma p ((hps p).mpr hp)

lemma CommaFree.cons {ps : List Text} (h : CommaFree ps) {p : Text} (hp : ',' ∉ p) :
    CommaFree (p::ps) where
  nonempty := List.cons_ne_nil p ps
  no_comma := List.forall_mem_cons.mpr ⟨hp,h.no_comma⟩

/-- The join of comma-free texts is split into these texts again. -/
lemma construct_join {ps : List Text} (h : CommaFree ps) :
    construct ([','].intercalate ps) = ⟨positives ps,remainders ps⟩ := by
  have hsplit := List.splitOn_intercalate ',' h.no_comma h.nonempty
  have hyes := construct_yesPatterns ([','].intercalate ps)
  have hno := construct_noPatterns ([','].intercalate ps)
  rw [hsplit] at hyes hno
  rw [positives,remainders,← hyes,← hno]

lemma matches_remainders (ps tags : List Text) : Matches tags (remainders ps) ↔
    ∃ p, '~'::p ∈ ps ∧ ∃ tag ∈ tags, wildcardMatch tag p = .ok true := by
  constructor
  · rintro ⟨tag,htag,p,hp,hmatch⟩
    exact ⟨p,mem_negative.mp hp,tag,htag,hmatch⟩
  · rintro ⟨p,hp,tag,htag,hmatch⟩
    exact ⟨tag,htag,p,mem_negative.mpr hp,hmatch⟩

lemma mem_positives {ps : List Text} {p : Text} :
    p ∈ positives ps ↔ p ∈ ps ∧ p.head? ≠ some '~' := by
  rw [positives,List.mem_filter,decide_eq_true_eq]

lemma matches_positives (ps tags : List Text) : Matches tags (positives ps) ↔
    ∃ p ∈ ps, p.head? ≠ some '~' ∧ ∃ tag ∈ tags, wildcardMatch tag p = .ok true := by
  constructor
  · rintro ⟨tag,htag,p,hp,hmatch⟩
    obtain ⟨hmem,hhead⟩ := mem_positives.mp hp
    exact ⟨p,hmem,hhead,tag,htag,hmatch⟩
  · rintro ⟨p,hmem,hhead,tag,htag,hmatch⟩
    exact ⟨tag,htag,p,mem_positives.mpr ⟨hmem,hhead⟩,hmatch⟩

lemma positives_eq_nil (ps : List Text) :
    positives ps = [] ↔ ¬ ∃ p ∈ ps, p.head? ≠ some '~' := by
  rw [List.eq_nil_iff_forall_not_mem]
  constructor
  · rintro h ⟨p,hp⟩
    exact h p (mem_positives.mpr hp)
  · exact fun h p hp => h ⟨p,mem_positives.mp hp⟩

/-- A verdict that is given is the right one. -/
lemma verdict_iff {ps tags : List Text} (hps : CommaFree ps) {b : Bool}
    (h : verdict ps tags = .ok b) : b = true ↔ Acceptable ps tags := by
  rw [verdict,construct_join hps] at h
  rw [accepts_iff h,matches_remainders,matches_positives,positives_eq_nil,Acceptable,and_comm,
    or_comm]

lemma verdict_returns_iff {ps : List Text} (hps : CommaFree ps) (tags : List Text) :
    (∃ b, verdict ps tags = .ok b) ↔
      Guarded tags (positives ps) ∧ Guarded tags (remainders ps) := by
  rw [verdict,construct_join hps,accepts_returns_iff]

/-- What is acceptable depends on the members of the two lists only. -/
lemma Acceptable.congr {ps ps' tags tags' : List Text} (hps : ∀ p, p ∈ ps ↔ p ∈ ps')
    (htags : ∀ tag, tag ∈ tags ↔ tag ∈ tags') : Acceptable ps tags ↔ Acceptable ps' tags' := by
  simp only [Acceptable,hps,htags]

lemma Acceptable.of_negative {ps tags : List Text} {p : Text}
    (h : Acceptable (('~'::p)::ps) tags) : Acceptable ps tags := by
  have hpositive : ∀ q ∈ ('~'::p)::ps, q.head? ≠ some '~' → q ∈ ps := by
    intro q hq hhead
    rcases List.mem_cons.mp hq with rfl | hq
    · exact absurd rfl hhead
    · exact hq
  obtain ⟨hno,hyes⟩ := h
  refine ⟨fun ⟨q,hq,hmatch⟩ => hno ⟨q,List.mem_cons_of_mem _ hq,hmatch⟩,hyes.imp ?_ ?_⟩
  · exact fun hnone ⟨q,hq,hhead⟩ => hnone ⟨q,List.mem_cons_of_mem _ hq,hhead⟩
  · exact fun ⟨q,hq,hhead,hmatch⟩ => ⟨q,hpositive q hq hhead,hhead,hmatch⟩

lemma Acceptable.cons_positive {ps tags : List Text} {p : Text} (hp : p.head? ≠ some '~')
    (hsome : ∃ q ∈ ps, q.head? ≠ some '~') (h : Acceptable ps tags) :
    Acceptable (p::ps) tags := by
  have hnegative : ∀ q, '~'::q ∈ p::ps → '~'::q ∈ ps := by
    intro q hq
    rcases List.mem_cons.mp hq with rfl | hq
    · exact absurd rfl hp
    · exact hq
  obtain ⟨hno,hyes⟩ := h
  refine ⟨fun ⟨q,hq,hmatch⟩ => hno ⟨q,hnegative q hq,hmatch⟩,Or.inr ?_⟩
  obtain ⟨q,hq,hhead,hmatch⟩ := hyes.resolve_left (fun hnone => hnone hsome)
  exact ⟨q,List.mem_cons_of_mem p hq,hhead,hmatch⟩

/-- There is a verdict, and it is the right one, exactly if among the positive patterns and among
the remainders of the negative ones a match of the first tag stands before every refused pattern.
Order and repetition then make no difference, and a further pattern of either kind changes a
verdict one way only. -/
theorem verdict_right_iff (ps tags : List Text) (hps : CommaFree ps) :
    ((∃ b, verdict ps tags = .ok b ∧ (b = true ↔ Acceptable ps tags)) ↔
      Guarded tags (positives ps) ∧ Guarded tags (remainders ps)) ∧
    (∀ ps' tags' b b', (∀ p, p ∈ ps ↔ p ∈ ps') → (∀ tag, tag ∈ tags ↔ tag ∈ tags') →
      verdict ps tags = .ok b → verdict ps' tags' = .ok b' → b = b') ∧
    ∀ ps' p, ',' ∉ p →
      ((∀ q, q ∈ ('~'::p)::ps ↔ q ∈ ps') → verdict ps tags = .ok false →
        verdict ps' tags ≠ .ok true) ∧
      ((∀ q, q ∈ p::ps ↔ q ∈ ps') → p.head? ≠ some '~' → (∃ q ∈ ps, q.head? ≠ some '~') →
        verdict ps tags = .ok true → verdict ps' tags ≠ .ok false) := by
  refine ⟨?_,fun ps' tags' b b' hmem htags hb hb' => ?_,fun ps' p hp => ⟨?_,?_⟩⟩
  · rw [← verdict_returns_iff hps]
    exact ⟨fun ⟨b,hb,_⟩ => ⟨b,hb⟩,fun ⟨b,hb⟩ => ⟨b,hb,verdict_iff hps hb⟩⟩
  · have hright := verdict_iff hps hb
    rw [Acceptable.congr hmem htags,← verdict_iff (hps.of_members hmem) hb'] at hright
    exact Bool.eq_iff_iff.mpr hright
  · intro hmem hno hyes
    have hcomma : ',' ∉ '~'::p := by
      rw [List.mem_cons,not_or]
      exact ⟨by decide,hp⟩
    have hadded := (verdict_iff ((hps.cons hcomma).of_members hmem) hyes).mp rfl
    have hold := ((Acceptable.congr hmem (fun _ => Iff.rfl)).mpr hadded).of_negative
    exact absurd ((verdict_iff hps hno).mpr hold) (by decide)
  · intro hmem hpositive hsome hyes hno
    have hold := ((verdict_iff hps hyes).mp rfl).cons_positive hpositive hsome
    have hadded := (Acceptable.congr hmem (fun _ => Iff.rfl)).mp hold
    exact absurd ((verdict_iff ((hps.cons hp).of_members hmem) hno).mpr hadded) (by decide)

/-- Patterns without backslashes never throw. -/
theorem verdict_right_slow :
    ∃ b, verdict [['a','*'],['~','s','*']] [['a','b']] = .ok b ∧
      (b = true ↔ Acceptable [['a','*'],['~','s','*']] [['a','b']]) := by
  refine (verdict_right_iff [['a','*'],['~','s','*']] [['a','b']] ⟨by decide,by decide⟩).1.mpr
    ⟨guarded_of_dashes (fun p hp => ?_) _,guarded_of_dashes (fun p hp => ?_) _⟩
  · obtain rfl : p = ['a','*'] := List.mem_singleton.mp hp
    exact dashes_of_no_backslash (by decide)
  · obtain rfl : p = ['s','*'] := List.mem_singleton.mp hp
    exact dashes_of_no_backslash (by decide)

/-- The pattern of one backslash throws, so that the tag that the next pattern matches is not
accepted. In the other order it is. -/
theorem verdict_backslash_throws :
    ¬ (verdict [['\\'],['x']] [['x']] = .ok true ↔ Acceptable [['\\'],['x']] [['x']]) ∧
      verdict [['x'],['\\']] [['x']] = .ok true := by
  have hmatch : wildcardMatch ['x'] ['x'] = .ok true := by
    rw [wildcardMatch_eq]
    rfl
  have hrefused : Refused ['\\'] := by
    refine (refused_iff [] _).mpr ⟨.escape,?_⟩
    rw [wildcardMatch_eq]
    rfl
  constructor
  · intro h
    have hright : Acceptable [['\\'],['x']] [['x']] :=
      ⟨by simp,Or.inr ⟨['x'],by simp,by decide,['x'],by simp,hmatch⟩⟩
    have hreturns := (verdict_returns_iff ⟨by decide,by decide⟩ [['x']]).mp ⟨true,h.mpr hright⟩
    obtain ⟨p,hp,-⟩ := hreturns.1 ['x'] rfl [] ['\\'] [['x']] rfl hrefused
    exact List.not_mem_nil hp
  · rw [verdict,construct_join ⟨by decide,by decide⟩]
    change (matchesAny [['x']] [['x'],['\\']]).bind _ = _
    have hyes : matchesAny [['x']] [['x'],['\\']] = .ok true := by
      rw [matchesAny]
      simp only [List.anyM,hmatch]
      rfl
    rw [hyes]
    rfl

end UarchBench.Selection.TagMatcher
