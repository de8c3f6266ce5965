import Mathlib.Logic.Function.Iterate

/-! Fuelled do-while loops. A finished run carries its number of trips, so a termination
statement also fixes how often the body was executed. -/
namespace UarchBench.Base

/-- `do body while again`: the final state and the number of executed trips. There is no
result when the fuel runs out first or a trip has none. -/
def doWhile {σ : Type*} (body : σ → Option σ) (again : σ → Bool) : ℕ → σ → Option (σ × ℕ)
  | 0, _ => none
  | fuel+1, s =>
    match body s with
    | none => none
    | some t =>
      if again t then (doWhile body again fuel t).map (fun r => (r.1,r.2+1)) else some (t,1)

section Rules
variable {σ : Type*} {body : σ → Option σ} {again : σ → Bool}

theorem doWhile_stop {s t : σ} (fuel : ℕ) (hb : body s = some t) (ht : again t = false) :
    doWhile body again (fuel+1) s = some (t,1) := by
  simp [doWhile,hb,ht]

theorem doWhile_continue {s t : σ} (fuel : ℕ) (hb : body s = some t) (ht : again t = true) :
    doWhile body again (fuel+1) s =
      (doWhile body again fuel t).map (fun r => (r.1,r.2+1)) := by
  simp [doWhile,hb,ht]

/-- The exact trip rule: a closed description of every intermediate state, of which only the
last one leaves the loop, gives the final state and the number of trips. -/
theorem doWhile_exact (states : ℕ → σ) (n : ℕ) (hn : 0 < n)
    (hbody : ∀ k < n, body (states k) = some (states (k+1)))
    (hagain : ∀ k, 0 < k → k < n → again (states k) = true)
    (hstop : again (states n) = false) (fuel : ℕ) (hfuel : n ≤ fuel) :
    doWhile body again fuel (states 0) = some (states n,n) := by
  obtain ⟨n,rfl⟩ : ∃ m, n = m+1 := ⟨n-1,by omega⟩
  obtain ⟨fuel,rfl⟩ : ∃ m, fuel = m+1 := ⟨fuel-1,by omega⟩
  induction n generalizing states fuel with
  | zero => exact doWhile_stop fuel (hbody 0 hn) hstop
  | succ n ih =>
    obtain ⟨fuel,rfl⟩ : ∃ m, fuel = m+1 := ⟨fuel-1,by omega⟩
    rw [doWhile_continue (fuel+1) (hbody 0 hn) (hagain 1 Nat.one_pos (by omega)),
      ih (fun k => states (k+1)) (by omega) (fun k hk => hbody (k+1) (by omega))
        (fun k hk hk' => hagain (k+1) (by omega) (by omega)) hstop fuel (by omega)]
    rfl

/-- The exact trip rule for a body without failures. -/
theorem doWhile_iterate (step : σ → σ) (s : σ) (n : ℕ) (hn : 0 < n)
    (hagain : ∀ k, 0 < k → k < n → again (step^[k] s) = true)
    (hstop : again (step^[n] s) = false) (fuel : ℕ) (hfuel : n ≤ fuel) :
    doWhile (fun s => some (step s)) again fuel s = some (step^[n] s,n) :=
  doWhile_exact (fun k => step^[k] s) n hn
    (fun k _ => by rw [Function.iterate_succ_apply']) hagain hstop fuel hfuel

/-- The total rule: a trip either keeps an invariant and lowers a measure, or ends the loop. -/
theorem doWhile_rule (inv : σ → Prop) (left : σ → ℕ) (post : σ → Prop)
    (hbody : ∀ s, inv s → ∃ t, body s = some t ∧
      ((again t = true ∧ inv t ∧ left t < left s) ∨ (again t = false ∧ post t)))
    {s : σ} (hs : inv s) {fuel : ℕ} (hfuel : left s < fuel) :
    ∃ r, doWhile body again fuel s = some r ∧ post r.1 := by
  induction fuel generalizing s with
  | zero => omega
  | succ fuel ih =>
    obtain ⟨t,ht,⟨hagain,hinv,hlt⟩ | ⟨hagain,hpost⟩⟩ := hbody s hs
    · obtain ⟨r,hr,hpost⟩ := ih hinv (by omega)
      exact ⟨(r.1,r.2+1),by rw [doWhile_continue fuel ht hagain,hr]; rfl,hpost⟩
    · exact ⟨_,doWhile_stop fuel ht hagain,hpost⟩

/-- More fuel does not change a result. -/
theorem doWhile_mono {fuel fuel' : ℕ} (hle : fuel ≤ fuel') {s : σ} {r : σ × ℕ}
    (h : doWhile body again fuel s = some r) : doWhile body again fuel' s = some r := by
  induction fuel generalizing fuel' s r with
  | zero => simp [doWhile] at h
  | succ fuel ih =>
    obtain ⟨fuel',rfl⟩ : ∃ m, fuel' = m+1 := ⟨fuel'-1,by omega⟩
    rw [doWhile] at h ⊢
    cases hbody : body s with
    | none => simp [hbody] at h
    | some t =>
      cases hagain : again t with
      | false => simpa [hbody,hagain] using h
      | true =>
        simp only [hbody,hagain,if_true,Option.map_eq_some_iff] at h ⊢
        obtain ⟨r',hrest,hr⟩ := h
        exact ⟨r',ih (by omega) hrest,hr⟩

/-- Whatever the branch decides, a finished run of such a body is one of its iterates. -/
theorem doWhile_result {step : σ → σ} {fuel n : ℕ} {s t : σ}
    (h : doWhile (fun s => some (step s)) again fuel s = some (t,n)) : t = step^[n] s := by
  induction fuel generalizing s n with
  | zero => simp [doWhile] at h
  | succ fuel ih =>
    rw [doWhile] at h
    cases hagain : again (step s) with
    | false =>
      simp only [hagain,Bool.false_eq_true,if_false,Option.some.injEq,Prod.mk.injEq] at h
      obtain ⟨rfl,rfl⟩ := h
      rfl
    | true =>
      simp only [hagain,if_true,Option.map_eq_some_iff,Prod.mk.injEq] at h
      obtain ⟨⟨t',n'⟩,hrest,rfl,rfl⟩ := h
      rw [Function.iterate_succ_apply]
      exact ih hrest

end Rules
end UarchBench.Base
