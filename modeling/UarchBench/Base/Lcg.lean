import Mathlib.Dynamics.PeriodicPts.Lemmas
import Mathlib.Data.List.Nodup
import Mathlib.Data.Nat.ModEq
import Mathlib.Tactic.Ring

/-! Linear congruential generators modulo a power of two. With a multiplier that is one more than a
multiple of four and an odd increment, the numbers of any full period are all residues, each once. -/
namespace UarchBench.Base
open Function
variable {a c : ℕ}

def lcg (a c x : ℕ) : ℕ := a*x+c

lemma lcg_mod (m x : ℕ) : lcg a c (x%m)%m = lcg a c x%m := by
  rw [lcg,lcg,Nat.add_mod,Nat.mul_mod_mod,← Nat.add_mod]

lemma iterate_lcg_mod (m n x : ℕ) : (fun y => lcg a c y%m)^[n] (x%m) = (lcg a c)^[n] x%m := by
  induction n with
  | zero => rfl
  | succ n ih => rw [iterate_succ_apply',iterate_succ_apply',ih,lcg_mod]

lemma iterate_lcg_add (n x d : ℕ) : (lcg a c)^[n] (x+d) = (lcg a c)^[n] x+a^n*d := by
  induction n with
  | zero => rw [pow_zero,one_mul]; rfl
  | succ n ih =>
    rw [iterate_succ_apply',iterate_succ_apply',ih,lcg,lcg]
    ring

/-- A power of two of steps adds an odd multiple of that power. -/
lemma iterate_lcg_two_pow (ha : a%4 = 1) (hc : c%2 = 1) (k x : ℕ) :
    ∃ u, (lcg a c)^[2^k] x = x+2^k*(2*u+1) := by
  induction k generalizing x with
  | zero =>
    refine ⟨(a/4*4*x+c/2*2)/2,?_⟩
    have hx : a*x = a/4*4*x+x := by
      conv_lhs => rw [← Nat.div_add_mod a 4,ha]
      ring
    rw [pow_zero,iterate_one,one_mul,lcg,hx]
    have heven : a/4*4*x = 2*(a/4*2*x) := by ring
    omega
  | succ k ih =>
    obtain ⟨u,hu⟩ := ih x
    have hpow : a^2^k%4 = 1 := by simp [Nat.pow_mod,ha]
    obtain ⟨v,hv⟩ : ∃ v, a^2^k+1 = 2*(2*v+1) := ⟨a^2^k/4,by omega⟩
    refine ⟨2*u*v+u+v,?_⟩
    rw [pow_succ,mul_two,iterate_add_apply,hu,iterate_lcg_add,hu]
    calc x+2^k*(2*u+1)+a^2^k*(2^k*(2*u+1)) = x+2^k*(2*u+1)*(a^2^k+1) := by ring
      _ = x+2^k*(2*u+1)*(2*(2*v+1)) := by rw [hv]
      _ = x+(2^k+2^k)*(2*(2*u*v+u+v)+1) := by ring

lemma two_pow_dvd_odd_iff {j k u : ℕ} (hj : j ≤ k) : 2^k ∣ 2^j*(2*u+1) ↔ j = k := by
  refine ⟨fun h => ?_,fun h => h ▸ Nat.dvd_mul_right _ _⟩
  by_contra hne
  rw [← Nat.add_sub_cancel' hj,pow_add] at h
  have hodd := (Nat.dvd_of_mul_dvd_mul_left (Nat.two_pow_pos j) h)
  have htwo := (dvd_pow_self 2 (by omega : k-j ≠ 0)).trans hodd
  omega

theorem minimalPeriod_lcg (ha : a%4 = 1) (hc : c%2 = 1) (k x : ℕ) :
    minimalPeriod (fun y => lcg a c y%2^k) (x%2^k) = 2^k := by
  have hperiodic : ∀ j ≤ k, IsPeriodicPt (fun y => lcg a c y%2^k) (2^j) (x%2^k) ↔ j = k := by
    intro j hj
    obtain ⟨u,hu⟩ := iterate_lcg_two_pow ha hc j x
    have hmod := Nat.modEq_iff_dvd' (n := 2^k) (Nat.le_add_right x (2^j*(2*u+1)))
    rw [Nat.add_sub_cancel_left,two_pow_dvd_odd_iff hj] at hmod
    rw [IsPeriodicPt,IsFixedPt,iterate_lcg_mod,hu,eq_comm]
    exact hmod
  rcases Nat.eq_zero_or_pos k with rfl | hk
  · exact minimalPeriod_eq_one_iff_isFixedPt.mpr ((hperiodic 0 le_rfl).mpr rfl)
  · obtain ⟨k,rfl⟩ : ∃ j, k = j+1 := ⟨k-1,by omega⟩
    have : Fact (Nat.Prime 2) := ⟨Nat.prime_two⟩
    refine minimalPeriod_eq_prime_pow (fun h => ?_) ((hperiodic _ le_rfl).mpr rfl)
    have := (hperiodic k (by omega)).mp h
    omega

/-- The residues of a full period, wherever it starts. -/
theorem lcg_perm (ha : a%4 = 1) (hc : c%2 = 1) (k x j : ℕ) :
    ((List.range (2^k)).map (fun n => (lcg a c)^[j+n] x%2^k)).Perm (List.range (2^k)) := by
  have hshift : ∀ n, (lcg a c)^[j+n] x%2^k =
      (fun y => lcg a c y%2^k)^[n] ((lcg a c)^[j] x%2^k) := fun n => by
    rw [iterate_lcg_mod,Nat.add_comm,iterate_add_apply]
  have hperiod := minimalPeriod_lcg ha hc k ((lcg a c)^[j] x)
  have hinj : ∀ n ∈ List.range (2^k), ∀ m ∈ List.range (2^k),
      (lcg a c)^[j+n] x%2^k = (lcg a c)^[j+m] x%2^k → n = m := by
    intro n hn m hm heq
    rw [hshift,hshift] at heq
    exact iterate_injOn_Iio_minimalPeriod (by rw [hperiod]; exact List.mem_range.mp hn)
      (by rw [hperiod]; exact List.mem_range.mp hm) heq
  have hnodup := List.Nodup.map_on hinj List.nodup_range
  have hsubset : (List.range (2^k)).map (fun n => (lcg a c)^[j+n] x%2^k) ⊆ List.range (2^k) := by
    intro r hr
    obtain ⟨n,-,rfl⟩ := List.mem_map.mp hr
    exact List.mem_range.mpr (Nat.mod_lt _ (Nat.two_pow_pos k))
  exact (hnodup.subperm hsubset).perm_of_length_le (by rw [List.length_map])

lemma count_range_div (m : ℕ) {n b : ℕ} (hb : b < m) :
    ((List.range (m*n)).map (·/n)).count b = n := by
  rcases Nat.eq_zero_or_pos n with rfl | hn
  · rfl
  induction m with
  | zero => exact absurd hb (Nat.not_lt_zero b)
  | succ m ih =>
    have hlast : ((List.range n).map (fun i => (m*n+i)/n)) = List.replicate n m := by
      refine List.eq_replicate_iff.mpr ⟨by rw [List.length_map,List.length_range],fun q hq => ?_⟩
      obtain ⟨i,hi,rfl⟩ := List.mem_map.mp hq
      rw [Nat.mul_comm,Nat.mul_add_div hn,Nat.div_eq_of_lt (List.mem_range.mp hi),Nat.add_zero]
    rw [Nat.succ_mul,List.range_add,List.map_append,List.map_map,List.count_append]
    change _+((List.range n).map (fun i => (m*n+i)/n)).count b = n
    rw [hlast,List.count_replicate]
    rcases Nat.lt_succ_iff_lt_or_eq.mp hb with hlt | rfl
    · rw [ih hlt,if_neg (by simpa using hlt.ne'),Nat.add_zero]
    · have hnone : ((List.range (b*n)).map (·/n)).count b = 0 := by
        refine List.count_eq_zero_of_not_mem (fun hmem => ?_)
        obtain ⟨i,hi,hdiv⟩ := List.mem_map.mp hmem
        exact (Nat.div_lt_of_lt_mul (by rw [Nat.mul_comm]; exact List.mem_range.mp hi)).ne hdiv
      rw [hnone,if_pos (beq_self_eq_true b),Nat.zero_add]

/-- The high bits of a full period take all their values equally often. -/
theorem count_lcg_div (ha : a%4 = 1) (hc : c%2 = 1) (m k x j : ℕ) {b : ℕ} (hb : b < 2^m) :
    ((List.range (2^(m+k))).map (fun n => (lcg a c)^[j+n] x%2^(m+k)/2^k)).count b = 2^k := by
  have hcount := ((lcg_perm ha hc (m+k) x j).map (·/2^k)).count_eq b
  rw [List.map_map] at hcount
  refine hcount.trans ?_
  rw [pow_add]
  exact count_range_div (2^m) hb

end UarchBench.Base
