import Mathlib.Data.List.Sort
import Mathlib.Data.List.Rotate

/-! Minima and order statistics under a comparison that only looks at a key. A sorting routine may
place elements with equal keys in any order, so only the keys of its output are determined: they
are the sorted keys of the input. -/
namespace UarchBench.Base

/-- The comparison ranks elements by a key. -/
def ComparesBy {δ κ : Type*} [LinearOrder κ] (less : δ → δ → Bool) (key : δ → κ) : Prop :=
  ∀ a b, less a b = decide (key a < key b)

/-- The comparisons a sorting routine accepts. -/
structure StrictWeak {δ : Type*} (less : δ → δ → Bool) : Prop where
  irrefl : ∀ a, less a a = false
  trans : ∀ a b c, less a b = true → less b c = true → less a c = true
  split : ∀ a b c, less a c = true → less a b = true ∨ less b c = true

/-- What is known of a sorting routine: it reorders, and nothing comes after a greater element. -/
structure Sorter (δ : Type*) where
  sort : (δ → δ → Bool) → List δ → List δ
  perm : ∀ less xs, (sort less xs).Perm xs
  sorted : ∀ less xs, StrictWeak less → (sort less xs).Pairwise (fun a b => less b a = false)

theorem ComparesBy.strictWeak {δ κ : Type*} [LinearOrder κ] {less : δ → δ → Bool} {key : δ → κ}
    (h : ComparesBy less key) : StrictWeak less where
  irrefl a := by simp [h a a]
  trans a b c hab hbc := by
    rw [h,decide_eq_true_iff] at *
    exact hab.trans hbc
  split a b c hac := by
    simp only [h a c,h a b,h b c,decide_eq_true_iff] at *
    exact (lt_or_ge (key a) (key b)).imp_right (fun hba => hba.trans_lt hac)

/-- The comparison `less b a = false` used by merge sort is total and transitive. -/
def mergeSorter (δ : Type*) : Sorter δ where
  sort less xs := xs.mergeSort (fun a b => !less b a)
  perm less xs := List.mergeSort_perm xs _
  sorted less xs h := by
    have hsorted : (xs.mergeSort (fun a b => !less b a)).Pairwise (fun a b => !less b a) := by
      apply List.pairwise_mergeSort
      · intro a b c hba hcb
        simp only [Bool.not_eq_true'] at *
        by_contra hca
        rcases h.split c b a (by simpa using hca) with hcb' | hba'
        · exact absurd hcb' (by simp [hcb])
        · exact absurd hba' (by simp [hba])
      · intro a b
        cases hab : less a b
        · simp
        · have hba : less b a = false := by
            by_contra hba
            have hself := h.trans a b a hab (by simpa using hba)
            exact absurd hself (by simp [h.irrefl a])
          simp [hba]
    simpa only [Bool.not_eq_true'] using hsorted

section Sorted
variable {δ κ : Type*} [LinearOrder κ]

/-- The keys in increasing order. -/
def sortedKeys (keys : List κ) : List κ := keys.mergeSort

theorem sortedKeys_perm (keys : List κ) : (sortedKeys keys).Perm keys := List.mergeSort_perm keys _

@[simp] theorem length_sortedKeys (keys : List κ) : (sortedKeys keys).length = keys.length :=
  (sortedKeys_perm keys).length_eq

theorem sortedKeys_sorted (keys : List κ) : (sortedKeys keys).Pairwise (· ≤ ·) :=
  List.pairwise_mergeSort' (· ≤ ·) keys

/-- Any increasing reordering of the keys is the sorted list. -/
theorem eq_sortedKeys {keys ks : List κ} (hperm : ks.Perm keys) (hsorted : ks.Pairwise (· ≤ ·)) :
    ks = sortedKeys keys :=
  (hperm.trans (sortedKeys_perm keys).symm).eq_of_pairwise' hsorted (sortedKeys_sorted keys)

/-- The output of a sorting routine, seen through the key. -/
theorem Sorter.map_key (S : Sorter δ) {less : δ → δ → Bool} {key : δ → κ}
    (h : ComparesBy less key) (xs : List δ) :
    (S.sort less xs).map key = sortedKeys (xs.map key) := by
  refine eq_sortedKeys ((S.perm less xs).map key) ?_
  rw [List.pairwise_map]
  refine (S.sorted less xs h.strictWeak).imp fun {a b} hab => ?_
  rw [h,decide_eq_false_iff_not,not_lt] at hab
  exact hab

theorem sortedKeys_map {κ' : Type*} [LinearOrder κ'] (keys : List κ) (f : κ → κ')
    (hf : ∀ a ∈ keys, ∀ b ∈ keys, a ≤ b → f a ≤ f b) :
    sortedKeys (keys.map f) = (sortedKeys keys).map f := by
  refine (eq_sortedKeys ((sortedKeys_perm keys).map f) ?_).symm
  rw [List.pairwise_map]
  refine (sortedKeys_sorted keys).imp_of_mem fun {a b} ha hb hab => ?_
  exact hf a ((sortedKeys_perm keys).mem_iff.mp ha) b ((sortedKeys_perm keys).mem_iff.mp hb) hab

end Sorted

section Wrap
variable {κ κ' : Type*} [LinearOrder κ] [LinearOrder κ']

/-- The number of keys below a bound. -/
def countBelow (bound : κ) (keys : List κ) : ℕ := keys.countP (· < bound)

/-- A sorted list starts with the keys below the bound. -/
theorem sorted_split (bound : κ) {ks : List κ} (h : ks.Pairwise (· ≤ ·)) :
    (∀ a ∈ ks.take (countBelow bound ks), a < bound) ∧
      ∀ a ∈ ks.drop (countBelow bound ks), bound ≤ a := by
  induction ks with
  | nil => simp
  | cons x ks ih =>
    rw [List.pairwise_cons] at h
    by_cases hx : x < bound
    · have hcount : countBelow bound (x::ks) = countBelow bound ks+1 := by
        simp [countBelow,hx]
      obtain ⟨hlow,hhigh⟩ := ih h.2
      rw [hcount,List.take_succ_cons,List.drop_succ_cons]
      refine ⟨fun a ha => ?_,hhigh⟩
      rcases List.mem_cons.mp ha with rfl | ha
      · exact hx
      · exact hlow a ha
    · have hge : ∀ a ∈ x::ks, bound ≤ a := by
        intro a ha
        rcases List.mem_cons.mp ha with rfl | ha
        · exact not_lt.mp hx
        · exact (not_lt.mp hx).trans (h.1 a ha)
      have hcount : countBelow bound (x::ks) = 0 :=
        List.countP_eq_zero.mpr fun a ha => by simpa using hge a ha
      rw [hcount]
      exact ⟨by simp,hge⟩

theorem countBelow_perm (bound : κ) {ks keys : List κ} (h : ks.Perm keys) :
    countBelow bound ks = countBelow bound keys := h.countP_eq _

/-- A map that is increasing on either side of a bound and sends what lies below it above
everything else turns the sorted order by the number of keys below the bound. -/
theorem sortedKeys_wrap (bound : κ) (keys : List κ) (f : κ → κ')
    (hlow : ∀ a ∈ keys, ∀ b ∈ keys, a ≤ b → b < bound → f a ≤ f b)
    (hhigh : ∀ a ∈ keys, ∀ b ∈ keys, bound ≤ a → a ≤ b → f a ≤ f b)
    (hwrap : ∀ a ∈ keys, ∀ b ∈ keys, a < bound → bound ≤ b → f b ≤ f a) :
    sortedKeys (keys.map f) =
      ((sortedKeys keys).rotate (countBelow bound keys)).map f := by
  set ks := sortedKeys keys with hks
  have hmem : ∀ a, a ∈ ks → a ∈ keys := fun a => (sortedKeys_perm keys).mem_iff.mp
  rw [← countBelow_perm bound (sortedKeys_perm keys),← hks]
  have hle : countBelow bound ks ≤ ks.length := List.countP_le_length
  obtain ⟨hbelow,habove⟩ := sorted_split bound (sortedKeys_sorted keys)
  refine (eq_sortedKeys (((List.rotate_perm ks _).trans (sortedKeys_perm keys)).map f) ?_).symm
  rw [List.rotate_eq_drop_append_take hle,List.pairwise_map,List.pairwise_append]
  refine ⟨?_,?_,?_⟩
  · refine ((sortedKeys_sorted keys).sublist (List.drop_sublist _ _)).imp_of_mem ?_
    intro a b ha hb hab
    exact hhigh a (hmem a (List.mem_of_mem_drop ha)) b (hmem b (List.mem_of_mem_drop hb))
      (habove a ha) hab
  · refine ((sortedKeys_sorted keys).sublist (List.take_sublist _ _)).imp_of_mem ?_
    intro a b ha hb hab
    exact hlow a (hmem a (List.mem_of_mem_take ha)) b (hmem b (List.mem_of_mem_take hb)) hab
      (hbelow b hb)
  · intro b hb a ha
    exact hwrap a (hmem a (List.mem_of_mem_take ha)) b (hmem b (List.mem_of_mem_drop hb))
      (hbelow a ha) (habove b hb)

end Wrap

section Least
variable {δ κ : Type*} [LinearOrder κ]

/-- The scan for the first least element; an empty range has none. -/
def minElement (less : δ → δ → Bool) : List δ → Option δ
  | [] => none
  | x::xs => some (xs.foldl (fun best y => if less y best then y else best) x)

theorem foldl_least {less : δ → δ → Bool} {key : δ → κ} (h : ComparesBy less key) (xs : List δ)
    (x : δ) :
    xs.foldl (fun best y => if less y best then y else best) x ∈ x::xs ∧
      ∀ y ∈ x::xs, key (xs.foldl (fun best y => if less y best then y else best) x) ≤ key y := by
  induction xs generalizing x with
  | nil => simp
  | cons z xs ih =>
    have hstep : (z::xs).foldl (fun best y => if less y best then y else best) x =
        xs.foldl (fun best y => if less y best then y else best) (if less z x then z else x) := rfl
    rw [hstep]
    have hhead : key (if less z x then z else x) ≤ key x ∧
        key (if less z x then z else x) ≤ key z := by
      rw [h z x]
      by_cases hlt : key z < key x
      · rw [if_pos (decide_eq_true hlt)]
        exact ⟨hlt.le,le_rfl⟩
      · rw [if_neg (by simpa using hlt)]
        exact ⟨le_rfl,not_lt.mp hlt⟩
    obtain ⟨hmem,hleast⟩ := ih (if less z x then z else x)
    constructor
    · rcases List.mem_cons.mp hmem with heq | hmem
      · rw [heq]
        split_ifs <;> simp
      · exact List.mem_cons_of_mem _ (List.mem_cons_of_mem _ hmem)
    · intro y hy
      rcases List.mem_cons.mp hy with rfl | hy
      · exact (hleast _ List.mem_cons_self).trans hhead.1
      · rcases List.mem_cons.mp hy with rfl | hy
        · exact (hleast _ List.mem_cons_self).trans hhead.2
        · exact hleast y (List.mem_cons_of_mem _ hy)

/-- The order of the scan does not matter for the key. -/
theorem foldl_least_perm {less : δ → δ → Bool} {key : δ → κ} (h : ComparesBy less key)
    {xs ys : List δ} (hperm : xs.Perm ys) (x : δ) :
    key (xs.foldl (fun best y => if less y best then y else best) x) =
      key (ys.foldl (fun best y => if less y best then y else best) x) := by
  obtain ⟨hmem,hleast⟩ := foldl_least h xs x
  obtain ⟨hmem',hleast'⟩ := foldl_least h ys x
  have hcons := hperm.cons x
  exact le_antisymm (hleast _ (hcons.mem_iff.mpr hmem')) (hleast' _ (hcons.mem_iff.mp hmem))

theorem minElement_spec {less : δ → δ → Bool} {key : δ → κ} (h : ComparesBy less key)
    {xs : List δ} {d : δ} (hd : minElement less xs = some d) :
    d ∈ xs ∧ ∀ y ∈ xs, key d ≤ key y := by
  cases xs with
  | nil => simp [minElement] at hd
  | cons x xs =>
    cases hd
    exact foldl_least h xs x

theorem minElement_isSome {less : δ → δ → Bool} {xs : List δ} (hne : xs ≠ []) :
    ∃ d, minElement less xs = some d := by
  cases xs with
  | nil => exact absurd rfl hne
  | cons x xs => exact ⟨_,rfl⟩

/-- The key of the least element is the attained lower bound of the keys. -/
theorem minElement_key {less : δ → δ → Bool} {key : δ → κ} (h : ComparesBy less key)
    {xs : List δ} {d x : δ} (hd : minElement less xs = some d) (hx : x ∈ xs)
    (hle : ∀ y ∈ xs, key x ≤ key y) : key d = key x :=
  have hspec := minElement_spec h hd
  le_antisymm (hspec.2 x hx) (hle d hspec.1)

end Least
end UarchBench.Base
