import Mathlib.Data.List.Induction

/-! Chains of calls that overwrite or keep a field. The value of the field is the one given by the
last call that writes it; calls that reset the field by mistake spoil this exactly if they come
after that call and its value was not the default. -/
namespace UarchBench.Base
variable {ω β : Type*}

/-- The value given by the last call that writes it. -/
def lastWrite (writes : ω → Option β) (calls : List ω) (init : β) : β :=
  ((calls.filterMap writes).getLast?).getD init

/-- The calls after the last one that writes the field, the latest first. -/
def afterLastWrite (writes : ω → Option β) (calls : List ω) : List ω :=
  calls.reverse.takeWhile (fun call => (writes call).isNone)

@[simp] theorem lastWrite_nil (writes : ω → Option β) (init : β) :
    lastWrite writes [] init = init := rfl

theorem lastWrite_snoc (writes : ω → Option β) (calls : List ω) (call : ω) (init : β) :
    lastWrite writes (calls ++ [call]) init =
      (writes call).getD (lastWrite writes calls init) := by
  cases h : writes call <;> simp [lastWrite,h]

theorem lastWrite_of_none {writes : ω → Option β} {calls : List ω} (init : β)
    (h : ∀ call ∈ calls, writes call = none) : lastWrite writes calls init = init := by
  rw [lastWrite,List.filterMap_eq_nil_iff.mpr h]
  rfl

/-- If all writes give the same value, so does the last one. -/
theorem lastWrite_of_forall {writes : ω → Option β} {calls : List ω} {v : β} (init : β)
    (hsome : ∃ call ∈ calls, writes call = some v)
    (hall : ∀ call ∈ calls, ∀ v', writes call = some v' → v' = v) :
    lastWrite writes calls init = v := by
  obtain ⟨call,hcall,hwrite⟩ := hsome
  have hne : calls.filterMap writes ≠ [] :=
    List.ne_nil_of_mem (List.mem_filterMap.mpr ⟨call,hcall,hwrite⟩)
  rw [lastWrite,List.getLast?_eq_some_getLast hne,Option.getD_some]
  obtain ⟨last,hlast,hv⟩ := List.mem_filterMap.mp (List.getLast_mem hne)
  exact hall last hlast _ hv

theorem afterLastWrite_snoc (writes : ω → Option β) (calls : List ω) (call : ω) :
    afterLastWrite writes (calls ++ [call]) =
      if (writes call).isNone then call::afterLastWrite writes calls else [] := by
  rw [afterLastWrite,List.reverse_append]
  exact List.takeWhile_cons

/-- A field that every call overwrites or keeps. -/
theorem foldl_lastWrite {σ : Type*} (apply : σ → ω → σ) (field : σ → β) (writes : ω → Option β)
    (hcall : ∀ s call, field (apply s call) = (writes call).getD (field s)) (calls : List ω)
    (s : σ) : field (calls.foldl apply s) = lastWrite writes calls (field s) := by
  induction calls using List.reverseRecOn with
  | nil => rfl
  | append_singleton calls call ih =>
    rw [List.foldl_append,lastWrite_snoc,← ih]
    exact hcall _ call

/-- Some calls that do not mean to write the field reset it to its default. -/
def writesOrResets (writes : ω → Option β) (resets : ω → Bool) (default : β) (call : ω) :
    Option β :=
  (writes call).or (if resets call then some default else none)

/-- The resets do no harm exactly if the value is the default anyway or none of them comes after
the last call that writes the field. -/
theorem lastWrite_resets_iff (writes : ω → Option β) (resets : ω → Bool) (default : β)
    (calls : List ω) :
    lastWrite (writesOrResets writes resets default) calls default =
        lastWrite writes calls default ↔
      lastWrite writes calls default = default ∨
        ∀ call ∈ afterLastWrite writes calls, resets call = false := by
  induction calls using List.reverseRecOn with
  | nil => simp
  | append_singleton calls call ih =>
    rw [lastWrite_snoc,lastWrite_snoc,afterLastWrite_snoc,writesOrResets]
    cases hwrite : writes call with
    | some v => simp
    | none =>
      cases hreset : resets call with
      | true =>
        have hflip : default = lastWrite writes calls default ↔ _ := eq_comm
        simpa [hreset] using hflip
      | false =>
        simp only [Option.none_or,Option.getD_none,Option.isNone_none,if_true,List.forall_mem_cons,
          hreset,true_and,Bool.false_eq_true,if_false]
        exact ih

end UarchBench.Base
