import UarchBench.Base.ExceptList
import UarchBench.Selection.Glob
import UarchBench.Util.SplitExact

/-! Wildcard matching in the build without regular expressions: literal patterns, or a single star
at the end. -/
namespace UarchBench.Selection
open Base Util

/-- `wildcard_match` under `NO_CXX11_REGEX`. -/
def wildcardMatchBasic (target pattern : Text) : Except String Bool :=
  match find pattern ['*'] 0 with
  | none => .ok (target == pattern)
  | some firstStar =>
    if firstStar = pattern.length-1 then
      let stem := substr pattern 0 (pattern.length-1)
      .ok (find target stem 0 == some 0)
    else
      .error ("You tried to use a non-trailing wildcard match, but this feature that requires " ++
        "C++ regex support")

lemma glob_append (a b : Text) : glob (a ++ b) = glob a*glob b := by
  rw [glob,List.map_append,List.prod_append]
  rfl

lemma mem_glob_literal {literal : Text} (h : '*' ∉ literal) (target : Text) :
    target ∈ glob literal ↔ target = literal := by
  induction literal generalizing target with
  | nil => exact Language.mem_one target
  | cons c literal ih =>
    rw [List.mem_cons,not_or] at h
    have hatom : globAtom c = {[c]} := if_neg (Ne.symm h.1)
    rw [glob,List.map_cons,List.prod_cons,hatom,Language.mem_mul]
    constructor
    · rintro ⟨a,ha,b,hb,rfl⟩
      rw [(ih h.2 b).mp hb,show a = [c] from ha]
      rfl
    · rintro rfl
      exact ⟨[c],rfl,literal,(ih h.2 literal).mpr rfl,rfl⟩

lemma mem_glob_star {literal : Text} (h : '*' ∉ literal) (target : Text) :
    target ∈ glob (literal ++ ['*']) ↔ literal <+: target := by
  rw [glob_append,Language.mem_mul]
  constructor
  · rintro ⟨a,ha,b,-,rfl⟩
    rw [(mem_glob_literal h a).mp ha]
    exact List.prefix_append literal b
  · rintro ⟨b,rfl⟩
    refine ⟨literal,(mem_glob_literal h literal).mpr rfl,b,?_,rfl⟩
    rw [glob,List.map_singleton,List.prod_singleton]
    trivial

lemma find_star_append {literal : Text} (h : '*' ∉ literal) (after : Text) :
    find (literal ++ '*'::after) ['*'] 0 = some literal.length := by
  rw [find,if_pos (Nat.zero_le _),List.drop_zero,findHere_append '*' h,Option.map_some,
    Nat.zero_add]

/-- Nothing follows the first star of a text that has it as its last character. -/
lemma after_first_star {before before' after : Text} (h : '*' ∉ before) (h' : '*' ∉ before')
    (heq : before ++ ['*'] = before' ++ '*'::after) : after = [] := by
  have hfirst := find_star_append h []
  rw [heq,find_star_append h' after] at hfirst
  have hlen := congrArg List.length heq
  simp only [List.length_append,List.length_cons,List.length_nil] at hlen
  have hsame := Option.some.inj hfirst
  exact List.length_eq_zero_iff.mp (by omega)

/-- A text begins with another one exactly if that is found at its start. -/
lemma find_start_iff (target stem : Text) : find target stem 0 = some 0 ↔ stem <+: target := by
  constructor
  · exact fun h => (find_eq_some h).2.1
  · intro h
    have hhere : findHere stem target = some 0 := by
      cases target <;> rw [findHere,if_pos (List.isPrefixOf_iff_prefix.mpr h)]
    rw [find,if_pos (Nat.zero_le _),List.drop_zero,hhere]
    rfl

lemma wildcardMatchBasic_literal {pattern : Text} (h : '*' ∉ pattern) (target : Text) :
    wildcardMatchBasic target pattern = .ok (target == pattern) := by
  rw [wildcardMatchBasic,(find_zero_eq_none_iff '*' pattern).mpr h]

lemma wildcardMatchBasic_last {literal : Text} (h : '*' ∉ literal) (target : Text) :
    wildcardMatchBasic target (literal ++ ['*']) = .ok (find target literal 0 == some 0) := by
  have hlen : literal.length = (literal ++ ['*']).length-1 := by simp
  rw [wildcardMatchBasic,find_star_append h]
  dsimp only
  rw [if_pos hlen,← hlen,substr,List.drop_zero,List.take_left]

lemma wildcardMatchBasic_inner {literal after : Text} (h : '*' ∉ literal) (hafter : after ≠ [])
    (target : Text) : ∃ e, wildcardMatchBasic target (literal ++ '*'::after) = .error e := by
  have hpos := List.length_pos_iff.mpr hafter
  rw [wildcardMatchBasic,find_star_append h]
  dsimp only
  rw [if_neg (by rw [List.length_append,List.length_cons]; omega)]
  exact ⟨_,rfl⟩

/-- The restricted match refuses the patterns whose first star is not at the end, and is the glob
on all others. -/
theorem wildcardMatchBasic_refines_glob (target pattern : Text) :
    ((∃ e, wildcardMatchBasic target pattern = .error e) ↔
      ∃ before after, pattern = before ++ '*'::after ∧ '*' ∉ before ∧ after ≠ []) ∧
    ∀ b, wildcardMatchBasic target pattern = .ok b → (b = true ↔ target ∈ glob pattern) := by
  by_cases hstar : '*' ∈ pattern
  · obtain ⟨before,after,rfl,hbefore⟩ := List.eq_append_cons_of_mem hstar
    by_cases hafter : after = []
    · subst hafter
      rw [wildcardMatchBasic_last hbefore]
      refine ⟨iff_of_false (result_no_error _) ?_,fun b hb => ?_⟩
      · rintro ⟨before',after',heq,hbefore',hafter'⟩
        exact hafter' (after_first_star hbefore hbefore' heq)
      · rw [← Except.ok.inj hb,beq_iff_eq,find_start_iff,mem_glob_star hbefore]
    · obtain ⟨e,he⟩ := wildcardMatchBasic_inner hbefore hafter target
      rw [he]
      exact ⟨iff_of_true ⟨e,rfl⟩ ⟨before,after,rfl,hbefore,hafter⟩,fun b hb => nomatch hb⟩
  · rw [wildcardMatchBasic_literal hstar]
    refine ⟨iff_of_false (result_no_error _) ?_,fun b hb => ?_⟩
    · rintro ⟨before,after,rfl,-,-⟩
      exact absurd (List.mem_append_right before List.mem_cons_self) hstar
    · rw [← Except.ok.inj hb,beq_iff_eq,mem_glob_literal hstar]

end UarchBench.Selection
