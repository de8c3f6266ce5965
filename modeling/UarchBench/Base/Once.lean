import Mathlib.Data.List.Basic

/-! Results that are computed when they are first asked for and kept from then on. A run is described
by what it does to the world, in order: each result is computed once, and everyone who asks gets the
same. -/
namespace UarchBench.Base

/-- A world with the results computed so far, in the order of their computation. -/
structure Once (σ κ β : Type) where
  world : σ
  results : List (κ × β) := []

/-- What is done to a world: the computation of a result, or something else. -/
inductive Act (σ κ : Type)
  | compute (k : κ)
  | other (f : σ → σ)

def Act.key {σ κ : Type} : Act σ κ → Option κ
  | .compute k => some k
  | .other _ => none

namespace Once
variable {σ κ β α ω ο : Type}

def keys (s : Once σ κ β) : List κ := s.results.map Prod.fst

/-- The state behind one act. -/
def act (compute : κ → StateM σ β) (s : Once σ κ β) : Act σ κ → Once σ κ β
  | .compute k => ⟨(compute k s.world).2,s.results ++ [(k,(compute k s.world).1)]⟩
  | .other f => { s with world := f s.world }

/-- The state behind some acts. -/
def after (compute : κ → StateM σ β) (acts : List (Act σ κ)) (s : Once σ κ β) : Once σ κ β :=
  acts.foldl (act compute) s

/-- The acts of a sequence, where those of an element depend on the keys computed before it. -/
def schedule (acts : List κ → ω → List (Act σ κ)) : List κ → List ω → List (Act σ κ)
  | _, [] => []
  | used, x::xs => acts used x ++ schedule acts (used ++ (acts used x).filterMap Act.key) xs

section After
variable {compute : κ → StateM σ β} {s : Once σ κ β}

lemma after_append (acts acts' : List (Act σ κ)) :
    after compute (acts ++ acts') s = after compute acts' (after compute acts s) := List.foldl_append

lemma keys_after (acts : List (Act σ κ)) :
    (after compute acts s).keys = s.keys ++ acts.filterMap Act.key := by
  induction acts generalizing s with
  | nil => exact (List.append_nil _).symm
  | cons a acts ih =>
    change (after compute acts (act compute s a)).keys = _
    rw [ih]
    cases a with
    | compute k =>
      have hkeys : (act compute s (.compute k)).keys = s.keys ++ [k] := List.map_append
      rw [hkeys,List.append_assoc]
      rfl
    | other f => rfl

/-- A result does not change any more. -/
lemma results_after (acts : List (Act σ κ)) : s.results <+: (after compute acts s).results := by
  induction acts generalizing s with
  | nil => exact List.prefix_refl _
  | cons a acts ih =>
    have hact : s.results <+: (act compute s a).results := by
      cases a with
      | compute k => exact List.prefix_append _ _
      | other f => exact List.prefix_refl _
    exact hact.trans ih

/-- All results have what a computed one has. -/
lemma all_after {P : κ → β → Prop} (hcompute : ∀ k w, P k (compute k w).1)
    (hs : ∀ e ∈ s.results, P e.1 e.2) (acts : List (Act σ κ)) :
    ∀ e ∈ (after compute acts s).results, P e.1 e.2 := by
  induction acts generalizing s with
  | nil => exact hs
  | cons a acts ih =>
    refine ih (s := act compute s a) ?_
    cases a with
    | compute k => exact List.forall_mem_append.mpr ⟨hs,List.forall_mem_singleton.mpr (hcompute k _)⟩
    | other f => exact hs

end After

section Run
variable {compute : κ → StateM σ β} {step : ω → StateM (Once σ κ β) ο}
  {acts : List κ → ω → List (Act σ κ)}

lemma mapM_cons (x : ω) (xs : List ω) (s : Once σ κ β) : (x::xs).mapM step s =
    ((step x s).1::(xs.mapM step (step x s).2).1,(xs.mapM step (step x s).2).2) := by
  rw [List.mapM_cons]
  rfl

/-- What an element gives in a run. -/
lemma getElem?_mapM (front : List ω) (x : ω) (rest : List ω) (s : Once σ κ β) :
    ((front ++ x::rest).mapM step s).1[front.length]? =
      some (step x (front.mapM step s).2).1 := by
  induction front generalizing s with
  | nil =>
    rw [List.nil_append,mapM_cons]
    rfl
  | cons y front ih =>
    rw [List.cons_append,mapM_cons,mapM_cons]
    exact ih _

lemma length_mapM (xs : List ω) (s : Once σ κ β) : (xs.mapM step s).1.length = xs.length := by
  induction xs generalizing s with
  | nil => rfl
  | cons x xs ih =>
    rw [mapM_cons]
    exact congrArg (·+1) (ih _)

/-- A run does what its schedule says. -/
theorem mapM_after (hstep : ∀ x s, (step x s).2 = after compute (acts s.keys x) s) (xs : List ω)
    (s : Once σ κ β) : (xs.mapM step s).2 = after compute (schedule acts s.keys xs) s := by
  induction xs generalizing s with
  | nil => rfl
  | cons x xs ih => rw [mapM_cons,ih,schedule,after_append,hstep,keys_after]

/-- What an element finds behind it stays until the end of a run. -/
theorem results_mapM (hstep : ∀ x s, (step x s).2 = after compute (acts s.keys x) s)
    (front : List ω) (x : ω) (rest : List ω) (s : Once σ κ β) :
    (step x (front.mapM step s).2).2.results <+: ((front ++ x::rest).mapM step s).2.results := by
  induction front generalizing s with
  | nil =>
    have hrest := mapM_after hstep rest (step x s).2
    rw [List.nil_append,mapM_cons,hrest]
    exact results_after _
  | cons y front ih =>
    rw [List.cons_append,mapM_cons,mapM_cons]
    exact ih _

/-- Each key that is asked for is computed once, in the order of the first requests. -/
theorem schedule_keys [DecidableEq κ] {asked : ω → List κ}
    (hasked : ∀ used x, used.eraseDups ++ (acts used.eraseDups x).filterMap Act.key =
      (used ++ asked x).eraseDups) (used : List κ) (xs : List ω) :
    used.eraseDups ++ (schedule acts used.eraseDups xs).filterMap Act.key =
      (used ++ xs.flatMap asked).eraseDups := by
  induction xs generalizing used with
  | nil => simp [schedule]
  | cons x xs ih =>
    rw [schedule,List.filterMap_append,← List.append_assoc,hasked,ih,List.flatMap_cons,
      List.append_assoc]

end Run

section Requests
variable [DecidableEq κ] (compute : κ → StateM σ β) (k : κ) (s : Once σ κ β)

def get? (s : Once σ κ β) (k : κ) : Option β := s.results.lookup k

/-- A computation that does not ask for a result. -/
def lift (x : StateM σ α) : StateM (Once σ κ β) α := fun s =>
  ((x s.world).1,{ s with world := (x s.world).2 })

def request (compute : κ → StateM σ β) (k : κ) : StateM (Once σ κ β) β := fun s =>
  match s.get? k with
  | some v => (v,s)
  | none => ((compute k s.world).1,⟨(compute k s.world).2,s.results ++ [(k,(compute k s.world).1)]⟩)

/-- What a request does. -/
def requestActs (σ : Type) (used : List κ) (k : κ) : List (Act σ κ) :=
  if k ∈ used then [] else [.compute k]

variable {k s}

lemma mem_keys_of_get? {v : β} (h : s.get? k = some v) : k ∈ s.keys := by
  obtain ⟨before,after,hsplit,-⟩ := List.lookup_eq_some_iff.mp h
  rw [keys,hsplit]
  simp

lemma not_mem_keys_of_get? (h : s.get? k = none) : k ∉ s.keys := by
  intro hmem
  obtain ⟨e,he,rfl⟩ := List.mem_map.mp hmem
  have hne := List.lookup_eq_none_iff.mp h e he
  simp at hne

variable (k s)

theorem request_after :
    (request compute k s).2 = after compute (requestActs σ s.keys k) s := by
  rw [request,requestActs]
  cases hget : s.get? k with
  | some v =>
    rw [if_pos (mem_keys_of_get? hget)]
    rfl
  | none =>
    rw [if_neg (not_mem_keys_of_get? hget)]
    rfl

/-- The result of a request is kept. -/
theorem get?_request : (request compute k s).2.get? k = some (request compute k s).1 := by
  rw [request]
  cases hget : s.get? k with
  | some v => exact hget
  | none =>
    change (s.results ++ _).lookup k = _
    rw [List.lookup_append,show s.results.lookup k = none from hget,Option.none_or]
    exact List.lookup_cons_self

lemma requestActs_keys (used : List κ) : used.eraseDups ++
    (requestActs σ used.eraseDups k).filterMap Act.key = (used ++ [k]).eraseDups := by
  rw [requestActs,List.eraseDups_append]
  by_cases hmem : k ∈ used
  · rw [if_pos (List.mem_eraseDups.mpr hmem)]
    simp [List.removeAll,hmem]
  · rw [if_neg (fun h => hmem (List.mem_eraseDups.mp h))]
    have hone : [k].removeAll used = [k] := by simp [List.removeAll,hmem]
    rw [hone]
    rfl

end Requests
end Once
end UarchBench.Base
