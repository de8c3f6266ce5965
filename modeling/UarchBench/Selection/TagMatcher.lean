import UarchBench.Base.ExceptList
import UarchBench.Selection.Wildcard

/-! Tag lists: patterns separated by commas, the negative ones with a tilde. -/
namespace UarchBench.Selection
open Base Util

structure TagMatcher where
  yesPatterns : List Text
  noPatterns : List Text
  deriving DecidableEq, Repr

namespace TagMatcher

def push (matcher : TagMatcher) (p : Text) : TagMatcher :=
  if p.head? = some '~' then
    {matcher with noPatterns := matcher.noPatterns ++ [substr p 1 p.length]}
  else {matcher with yesPatterns := matcher.yesPatterns ++ [p]}

/-- The constructor; splitting at a comma always ends. -/
def construct (patternList : Text) : TagMatcher :=
  let tokens := (splitOnString patternList [',']).get (by rw [splitOnString_char]; rfl)
  tokens.foldl push ⟨[],[]⟩

/-- The two loops of `matches`. -/
def matchesAny (tags patterns : List Text) : Except RegexError Bool :=
  tags.anyM (fun tag => patterns.anyM (fun pattern => wildcardMatch tag pattern))

/-- The call operator. -/
def accepts (matcher : TagMatcher) (tags : List Text) : Except RegexError Bool := do
  let posMatch ← matchesAny tags matcher.yesPatterns
  let negMatch ← matchesAny tags matcher.noPatterns
  return (posMatch || matcher.yesPatterns.isEmpty) && !negMatch

lemma foldl_push (tokens : List Text) (matcher : TagMatcher) :
    (tokens.foldl push matcher).yesPatterns =
        matcher.yesPatterns ++ tokens.filter (fun p => p.head? ≠ some '~') ∧
      (tokens.foldl push matcher).noPatterns = matcher.noPatterns ++
        (tokens.filter (fun p => p.head? = some '~')).map (fun p => substr p 1 p.length) := by
  induction tokens generalizing matcher with
  | nil => simp
  | cons p tokens ih =>
    rw [List.foldl_cons,(ih _).1,(ih _).2,push]
    by_cases hp : p.head? = some '~'
    · simp [hp]
    · simp [hp]

theorem construct_yesPatterns (patternList : Text) : (construct patternList).yesPatterns =
    (patternList.splitOn ',').filter (fun p => p.head? ≠ some '~') := by
  simp only [construct,splitOnString_char,Option.get_some,(foldl_push _ _).1,List.nil_append]

lemma substr_one (p : Text) : substr p 1 p.length = p.tail := by
  rw [substr,List.drop_one,List.take_of_length_le (by rw [List.length_tail]; omega)]

theorem construct_noPatterns (patternList : Text) : (construct patternList).noPatterns =
    ((patternList.splitOn ',').filter (fun p => p.head? = some '~')).map List.tail := by
  simp only [construct,splitOnString_char,Option.get_some,(foldl_push _ _).2,List.nil_append,
    substr_one]

/-- The negative patterns lose their tildes. -/
lemma mem_negative {ps : List Text} {p : Text} :
    p ∈ (ps.filter (fun p => p.head? = some '~')).map List.tail ↔ '~'::p ∈ ps := by
  simp only [List.mem_map,List.mem_filter,decide_eq_true_eq]
  constructor
  · rintro ⟨q,⟨hq,hhead⟩,rfl⟩
    cases q with
    | nil => contradiction
    | cons c q =>
      obtain rfl : c = '~' := by simpa using hhead
      exact hq
  · exact fun h => ⟨'~'::p,⟨h,rfl⟩,rfl⟩

/-- Some tag matches some pattern. -/
def Matches (tags patterns : List Text) : Prop :=
  ∃ tag ∈ tags, ∃ pattern ∈ patterns, wildcardMatch tag pattern = .ok true

lemma matchesAny_iff {tags patterns : List Text} {b : Bool}
    (h : matchesAny tags patterns = .ok b) : b = true ↔ Matches tags patterns := by
  cases b with
  | true =>
    obtain ⟨tag,htag,hmatch⟩ := anyM_true h
    exact ⟨fun _ => ⟨tag,htag,anyM_true hmatch⟩,fun _ => rfl⟩
  | false =>
    refine ⟨fun hb => absurd hb (by decide),?_⟩
    rintro ⟨tag,htag,pattern,hpattern,hmatch⟩
    have hno := anyM_false (anyM_false h tag htag) pattern hpattern
    rw [hmatch] at hno
    cases hno

/-- Where nothing throws, a tag list is accepted if it matches a positive pattern, or there are
none, and no negative one. -/
theorem accepts_iff {matcher : TagMatcher} {tags : List Text} {b : Bool}
    (h : matcher.accepts tags = .ok b) : b = true ↔
      (Matches tags matcher.yesPatterns ∨ matcher.yesPatterns = []) ∧
        ¬ Matches tags matcher.noPatterns := by
  rw [accepts] at h
  cases hyes : matchesAny tags matcher.yesPatterns with
  | error e =>
    rw [hyes] at h
    cases h
  | ok yes =>
    cases hno : matchesAny tags matcher.noPatterns with
    | error e =>
      rw [hyes,hno] at h
      cases h
    | ok no =>
      rw [hyes,hno] at h
      cases h
      rw [← matchesAny_iff hyes,← matchesAny_iff hno]
      simp

end TagMatcher
end UarchBench.Selection
