import Mathlib.Data.Int.GCD
import Mathlib.Data.Nat.ModEq
import Mathlib.Data.List.Nodup

/-! Walking a ring of `n` places with a stride coprime to `n`: any `n` consecutive steps visit
every place exactly once. -/
namespace UarchBench.Base

/-- Two steps of one window at the same place are the same step. -/
theorem stride_injective {stride n : ℕ} (h : Nat.Coprime stride n) {j k k' : ℕ}
    (hk : j ≤ k ∧ k < j+n) (hk' : j ≤ k' ∧ k' < j+n) (heq : stride*k%n = stride*k'%n) :
    k = k' := by
  have hmod : k ≡ k' [MOD n] := Nat.ModEq.cancel_left_of_coprime h.symm heq
  wlog hle : k ≤ k' generalizing k k'
  · exact (this hk' hk heq.symm hmod.symm (by omega)).symm
  have hdvd := (Nat.modEq_iff_dvd' hle).mp hmod
  have hzero := Nat.eq_zero_of_dvd_of_lt hdvd (by omega)
  omega

theorem stride_surjective {stride n : ℕ} (h : Nat.Coprime stride n) (j : ℕ) {r : ℕ} (hr : r < n) :
    ∃ k, (j ≤ k ∧ k < j+n) ∧ stride*k%n = r := by
  obtain ⟨m,hm,hmod⟩ := Nat.exists_mul_mod_eq_of_coprime r h (by omega)
  have hj := Nat.div_add_mod j n
  have hjlt := Nat.mod_lt j (Nat.zero_lt_of_lt hr)
  -- the step of the window that agrees with `m` modulo `n`
  obtain ⟨k,hk,hkm⟩ : ∃ k, (j ≤ k ∧ k < j+n) ∧ ∃ q, k = m+n*q := by
    by_cases hle : j%n ≤ m
    · exact ⟨m+n*(j/n),by omega,_,rfl⟩
    · exact ⟨m+n*(j/n+1),by rw [Nat.mul_succ]; omega,_,rfl⟩
  obtain ⟨q,rfl⟩ := hkm
  refine ⟨_,hk,?_⟩
  rw [Nat.mul_add,Nat.mul_left_comm,Nat.add_mul_mod_self_left,hmod,Nat.mod_eq_of_lt hr]

theorem existsUnique_stride {stride n : ℕ} (h : Nat.Coprime stride n) (j : ℕ) {r : ℕ}
    (hr : r < n) : ∃! k, (j ≤ k ∧ k < j+n) ∧ stride*k%n = r := by
  obtain ⟨k,hk,hkr⟩ := stride_surjective h j hr
  exact ⟨k,⟨hk,hkr⟩,fun k' hk' => stride_injective h hk'.1 hk (hk'.2.trans hkr.symm)⟩

/-- Full rounds over the first places. -/
lemma map_range_rounds {α : Type*} (f : ℕ → α) (n k : ℕ) :
    (List.range (k*n)).map (fun i => f (i%n)) =
      (List.replicate k ((List.range n).map f)).flatten := by
  induction k with
  | zero => rw [Nat.zero_mul]; rfl
  | succ k ih =>
    rw [Nat.succ_mul,List.range_add,List.map_append,ih,List.replicate_succ',List.flatten_append,
      List.flatten_singleton,List.map_map]
    congr 1
    refine List.map_congr_left (fun i hi => ?_)
    rw [Function.comp_apply,Nat.mul_add_mod_self_right,Nat.mod_eq_of_lt (List.mem_range.mp hi)]

lemma count_map_range {α : Type*} [DecidableEq α] {f : ℕ → α} (hf : Function.Injective f)
    {n j : ℕ} (hj : j < n) : ((List.range n).map f).count (f j) = 1 :=
  List.count_eq_one_of_mem (List.nodup_range.map hf)
    (List.mem_map_of_mem (List.mem_range.mpr hj))

/-- In full rounds every place is met equally often. -/
theorem count_rounds {α : Type*} [DecidableEq α] {f : ℕ → α} (hf : Function.Injective f)
    {n j : ℕ} (hj : j < n) (k : ℕ) :
    ((List.range (k*n)).map (fun i => f (i%n))).count (f j) = k := by
  rw [map_range_rounds,List.count_flatten,List.map_replicate,List.sum_replicate_nat,
    count_map_range hf hj,Nat.mul_one]

end UarchBench.Base
