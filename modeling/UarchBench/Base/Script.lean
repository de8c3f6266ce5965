import Mathlib.Data.List.Basic

/-! Programs that an error ends at once, in the state they have reached by then: a script that stops
at its first failing command. -/
namespace UarchBench.Base.Script
variable {ε σ α β : Type}

/-- The state in which a program ends, with or without an error. -/
def endState (x : EStateM ε σ α) (s : σ) : σ :=
  match x s with
  | .ok _ s' => s'
  | .error _ s' => s'

lemma bind_of_ok {x : EStateM ε σ α} {s s' : σ} {a : α} (h : x s = .ok a s')
    (f : α → EStateM ε σ β) : (x >>= f) s = f a s' := by
  change EStateM.bind x f s = _
  rw [EStateM.bind,h]

lemma bind_of_error {x : EStateM ε σ α} {s s' : σ} {e : ε} (h : x s = .error e s')
    (f : α → EStateM ε σ β) : (x >>= f) s = .error e s' := by
  change EStateM.bind x f s = _
  rw [EStateM.bind,h]

lemma get_bind (f : σ → EStateM ε σ β) (s : σ) : (get >>= f) s = f s s := rfl

lemma modify_bind (g : σ → σ) (f : PUnit → EStateM ε σ β) (s : σ) :
    (modify g >>= f) s = f ⟨⟩ (g s) := rfl

lemma endState_of_ok {x : EStateM ε σ α} {s s' : σ} {a : α} (h : x s = .ok a s') :
    endState x s = s' := by rw [endState,h]

lemma endState_of_error {x : EStateM ε σ α} {s s' : σ} {e : ε} (h : x s = .error e s') :
    endState x s = s' := by rw [endState,h]

lemma endState_bind_of_ok {x : EStateM ε σ α} {s s' : σ} {a : α} (h : x s = .ok a s')
    (f : α → EStateM ε σ β) : endState (x >>= f) s = endState (f a) s' := by
  rw [endState,endState,bind_of_ok h]

lemma endState_bind_of_error {x : EStateM ε σ α} {s s' : σ} {e : ε} (h : x s = .error e s')
    (f : α → EStateM ε σ β) : endState (x >>= f) s = s' :=
  endState_of_error (bind_of_error h f)

/-- A loop whose body only changes the state. -/
lemma forM_modify (next : α → σ → σ) (xs : List α) (s : σ) :
    (xs.forM fun x => (modify (next x) : EStateM ε σ PUnit)) s =
      .ok ⟨⟩ (xs.foldl (fun s x => next x s) s) := by
  induction xs generalizing s with
  | nil => rfl
  | cons x xs ih =>
    rw [List.forM,modify_bind,ih,List.foldl_cons]

end UarchBench.Base.Script
