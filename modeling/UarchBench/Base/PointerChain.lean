import Mathlib.Data.List.Nodup

/-! Chains of pointers that end at null. Where a chain starts determines it, so that none comes back
to one of its nodes. -/
namespace UarchBench.Base
variable {α : Type*}

/-- From an address on, the pointers lead through these nodes and then to null. -/
inductive PointerChain (next : α → α) (null : α) : α → List α → Prop
  | nil : PointerChain next null null []
  | cons {a l} (ne : a ≠ null) (rest : PointerChain next null (next a) l) :
      PointerChain next null a (a::l)

namespace PointerChain
variable {next : α → α} {null a b : α} {l l' : List α}

theorem unique (h : PointerChain next null a l) (h' : PointerChain next null a l') : l = l' := by
  induction h generalizing l' with
  | nil =>
    cases h' with
    | nil => rfl
    | cons ne _ => exact absurd rfl ne
  | cons ne rest ih =>
    cases h' with
    | nil => exact absurd rfl ne
    | cons _ rest' => rw [ih rest']

/-- Every node starts a chain that is not longer. -/
lemma of_mem (h : PointerChain next null a l) (hb : b ∈ l) :
    ∃ l', PointerChain next null b l' ∧ l'.length ≤ l.length := by
  induction h with
  | nil => cases hb
  | @cons a l ne rest ih =>
    rcases List.mem_cons.mp hb with rfl | hb
    · exact ⟨_,PointerChain.cons ne rest,Nat.le_refl _⟩
    · obtain ⟨l',hl',hle⟩ := ih hb
      exact ⟨l',hl',Nat.le_succ_of_le hle⟩

/-- A chain that came back to a node would not end. -/
theorem nodup (h : PointerChain next null a l) : l.Nodup := by
  induction h with
  | nil => exact List.nodup_nil
  | @cons a l ne rest ih =>
    refine List.nodup_cons.mpr ⟨fun hmem => ?_,ih⟩
    obtain ⟨l',hl',hle⟩ := rest.of_mem hmem
    rw [hl'.unique (PointerChain.cons ne rest),List.length_cons] at hle
    omega

/-- Nodes that are linked one after the other. -/
theorem of_links (nodes : ℕ → α) (n : ℕ)
    (h : ∀ k < n, nodes k ≠ null ∧ next (nodes k) = nodes (k+1)) (hend : nodes n = null) :
    PointerChain next null (nodes 0) ((List.range n).map nodes) := by
  induction n generalizing nodes with
  | zero =>
    rw [hend]
    exact PointerChain.nil
  | succ n ih =>
    obtain ⟨hne,hnext⟩ := h 0 n.succ_pos
    have hrest := ih (fun k => nodes (k+1)) (fun k hk => h (k+1) (by omega)) hend
    rw [List.range_succ_eq_map,List.map_cons,List.map_map]
    refine PointerChain.cons hne ?_
    rw [hnext]
    exact hrest

/-- Pointers that agree at the nodes have the same chain. -/
theorem congr {next' : α → α} (h : PointerChain next null a l)
    (heq : ∀ p ∈ l, next' p = next p) : PointerChain next' null a l := by
  induction h with
  | nil => exact PointerChain.nil
  | @cons a l ne rest ih =>
    refine PointerChain.cons ne ?_
    rw [heq a List.mem_cons_self]
    exact ih (fun p hp => heq p (List.mem_cons_of_mem a hp))

end PointerChain
end UarchBench.Base
