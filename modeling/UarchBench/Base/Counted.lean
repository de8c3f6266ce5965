import Mathlib.Order.Lattice
import UarchBench.Base.DoWhile

/-! Structured machine code: blocks of instructions, sequences, and loops that count a register down
until it is zero. The rules are for total correctness: the code ends, with the same state for all
fuel that is enough. -/
namespace UarchBench.Base
variable {ι ρ σ : Type*}

inductive Code (ι ρ : Type*)
  | block (is : List ι)
  | seq (c d : Code ι ρ)
  /-- The body, the decrement of the counter and the branch back. -/
  | loop (body : Code ι ρ) (counter : ρ)

/-- What the instructions and the decrements do to a state, and the flag of the branch. -/
structure Semantics (ι ρ σ : Type*) where
  exec : σ → ι → σ
  dec : σ → ρ → σ
  nonzero : σ → ρ → Bool

namespace Semantics
variable (S : Semantics ι ρ σ)

def run (fuel : ℕ) : Code ι ρ → σ → Option σ
  | .block is, s => some (is.foldl S.exec s)
  | .seq c d, s => (run fuel c s).bind (run fuel d)
  | .loop body r, s =>
    (doWhile (fun s => (run fuel body s).map (fun t => S.dec t r)) (fun s => S.nonzero s r) fuel
      s).map Prod.fst

/-- The body of a loop with the decrement. -/
def trip (fuel : ℕ) (body : Code ι ρ) (r : ρ) (s : σ) : Option σ :=
  (S.run fuel body s).map (fun t => S.dec t r)

lemma run_loop (fuel : ℕ) (body : Code ι ρ) (r : ρ) (s : σ) : S.run fuel (.loop body r) s =
    (doWhile (S.trip fuel body r) (fun s => S.nonzero s r) fuel s).map Prod.fst := rfl

/-- The code ends in the state, with any fuel from some number on. -/
def Ends (c : Code ι ρ) (s t : σ) : Prop := ∃ n, ∀ fuel, n ≤ fuel → S.run fuel c s = some t

/-- From every state with the precondition the code ends in one with the postcondition. -/
def Triple (P : σ → Prop) (c : Code ι ρ) (Q : σ → Prop) : Prop :=
  ∀ s, P s → ∃ t, S.Ends c s t ∧ Q t

variable {S}

theorem Ends.seq {c d : Code ι ρ} {s t u : σ} (h : S.Ends c s t) (h' : S.Ends d t u) :
    S.Ends (.seq c d) s u := by
  obtain ⟨n,hn⟩ := h
  obtain ⟨m,hm⟩ := h'
  refine ⟨max n m,fun fuel hfuel => ?_⟩
  rw [run,hn fuel ((le_max_left n m).trans hfuel),Option.bind_some]
  exact hm fuel ((le_max_right n m).trans hfuel)

namespace Triple
variable {P P' Q Q' R : σ → Prop} {c d body : Code ι ρ} {r : ρ}

theorem conseq (h : S.Triple P c Q) (hpre : ∀ s, P' s → P s) (hpost : ∀ t, Q t → Q' t) :
    S.Triple P' c Q' := fun s hs => by
  obtain ⟨t,hend,ht⟩ := h s (hpre s hs)
  exact ⟨t,hend,hpost t ht⟩

theorem block {is : List ι} (h : ∀ s, P s → Q (is.foldl S.exec s)) : S.Triple P (.block is) Q :=
  fun s hs => ⟨_,⟨0,fun _ _ => rfl⟩,h s hs⟩

/-- A block of instructions that all keep an invariant. -/
theorem block_keeps {is : List ι} (h : ∀ i ∈ is, ∀ s, P s → P (S.exec s i)) :
    S.Triple P (.block is) P := by
  refine block (fun s hs => ?_)
  induction is generalizing s with
  | nil => exact hs
  | cons i is ih =>
    obtain ⟨hi,his⟩ := List.forall_mem_cons.mp h
    exact ih his (S.exec s i) (hi s hs)

theorem seq (h : S.Triple P c R) (h' : S.Triple R d Q) : S.Triple P (.seq c d) Q := fun s hs => by
  obtain ⟨t,hend,ht⟩ := h s hs
  obtain ⟨u,hend',hu⟩ := h' t ht
  exact ⟨u,hend.seq hend',hu⟩

/-- The loop rule: the invariant is that of the trips done, and the counter is zero only behind the
last one. The induction is on the trips that are left. -/
theorem loop {I : ℕ → σ → Prop} {n : ℕ} (hn : 0 < n)
    (hbody : ∀ k < n, S.Triple (I k) body (fun t => I (k+1) (S.dec t r) ∧
      S.nonzero (S.dec t r) r = decide (k+1 < n))) :
    S.Triple (I 0) (.loop body r) (I n) := by
  have htrip : ∀ k < n, ∀ s, I k s → ∃ t, I (k+1) t ∧ S.nonzero t r = decide (k+1 < n) ∧
      ∃ m, ∀ fuel, m ≤ fuel → S.trip fuel body r s = some t := by
    intro k hk s hs
    obtain ⟨t,⟨m,hend⟩,ht,hzero⟩ := hbody k hk s hs
    exact ⟨S.dec t r,ht,hzero,m,fun fuel hfuel => by rw [trip,hend fuel hfuel,Option.map_some]⟩
  have htrips : ∀ left k, k+left+1 = n → ∀ s, I k s → ∃ t, I n t ∧ ∃ m, ∀ fuel fuel', m ≤ fuel →
      m ≤ fuel' →
        doWhile (S.trip fuel body r) (fun s => S.nonzero s r) fuel' s = some (t,left+1) := by
    intro left
    induction left with
    | zero =>
      intro k hk s hs
      obtain ⟨t,ht,hzero,m,hend⟩ := htrip k (by omega) s hs
      rw [decide_eq_false (by omega)] at hzero
      refine ⟨t,hk ▸ ht,m+1,fun fuel fuel' hfuel hfuel' => ?_⟩
      obtain ⟨fuel',rfl⟩ : ∃ j, fuel' = j+1 := ⟨fuel'-1,by omega⟩
      exact doWhile_stop fuel' (hend fuel (by omega)) hzero
    | succ left ih =>
      intro k hk s hs
      obtain ⟨t,ht,hzero,m,hend⟩ := htrip k (by omega) s hs
      rw [decide_eq_true (by omega)] at hzero
      obtain ⟨u,hu,m',hrest⟩ := ih (k+1) (by omega) t ht
      refine ⟨u,hu,max m m'+1,fun fuel fuel' hfuel hfuel' => ?_⟩
      obtain ⟨fuel',rfl⟩ : ∃ j, fuel' = j+1 := ⟨fuel'-1,by omega⟩
      rw [doWhile_continue fuel' (hend fuel (by omega)) hzero,
        hrest fuel fuel' (by omega) (by omega)]
      rfl
  intro s hs
  obtain ⟨t,ht,m,hend⟩ := htrips (n-1) 0 (by omega) s hs
  exact ⟨t,⟨m,fun fuel hfuel => by rw [run_loop,hend fuel fuel hfuel hfuel,Option.map_some]⟩,ht⟩

end Triple
end Semantics

/-- A fixed number of runs, each of which needs some fuel. -/
theorem foldlM_range_fuel {step : ℕ → σ → ℕ → Option σ} {I : ℕ → σ → Prop} {n : ℕ}
    (h : ∀ k < n, ∀ s, I k s → ∃ t, I (k+1) t ∧ ∃ m, ∀ fuel, m ≤ fuel → step fuel s k = some t)
    {s : σ} (hs : I 0 s) :
    ∃ t, I n t ∧ ∃ m, ∀ fuel, m ≤ fuel → (List.range n).foldlM (step fuel) s = some t := by
  induction n with
  | zero => exact ⟨s,hs,0,fun _ _ => rfl⟩
  | succ n ih =>
    obtain ⟨t,ht,m,hfirst⟩ := ih (fun k hk => h k (Nat.lt_succ_of_lt hk))
    obtain ⟨u,hu,m',hlast⟩ := h n n.lt_succ_self t ht
    refine ⟨u,hu,max m m',fun fuel hfuel => ?_⟩
    rw [List.range_succ,List.foldlM_append,hfirst fuel ((le_max_left m m').trans hfuel)]
    simp only [List.foldlM_cons,List.foldlM_nil,Option.bind_eq_bind,Option.bind_some,
      hlast fuel ((le_max_right m m').trans hfuel)]
    rfl
end UarchBench.Base
