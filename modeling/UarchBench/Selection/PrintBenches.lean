import UarchBench.Registration.GroupAdd
import UarchBench.Selection.Groups
import Mathlib.Data.List.Dedup

/-! The listing of a load or store group, which shows three of its benchmarks and the number of the
others. -/
namespace UarchBench.Selection.LoadStoreGroup
open Registration
variable {ι : Type}

def Row.path? : Row → Option String
  | .bench path _ => some path
  | .moreNotShown _ => none

def Row.hidden? : Row → Option UInt64
  | .bench _ _ => none
  | .moreNotShown count => some count

/-- The row of a benchmark. -/
def rowOf (b : Benchmark ι) : Row := .bench b.getPath b.args.description

/-- What a listing should say of a group. -/
structure Summarizes (group : LoadStoreGroup ι) (rows : List Row) : Prop where
  first : ∀ b ∈ group.benches[0]?, rows.count (rowOf b) = 1
  second : ∀ b ∈ group.benches[1]?, rows.count (rowOf b) = 1
  last : ∀ b ∈ group.benches.getLast?, rows.count (rowOf b) = 1
  total : ∃ hidden, rows.filterMap Row.hidden? = [hidden] ∧
    hidden.toNat+(rows.filterMap Row.path?).dedup.length = group.benches.length

lemma rowOf_eq_iff {b c : Benchmark ι} :
    rowOf b = rowOf c ↔ b.getPath = c.getPath ∧ b.args.description = c.args.description := by
  rw [rowOf,rowOf,Row.bench.injEq]

/-- Rows of benchmarks with other paths do not count. -/
lemma rowOf_ne {b c : Benchmark ι} (h : b.getPath ≠ c.getPath) : rowOf b ≠ rowOf c :=
  fun heq => h (rowOf_eq_iff.mp heq).1

/-- Where no row is repeated, a benchmark with a row is listed once. -/
lemma listed_once {rows : List Row} {o : Option (Benchmark ι)} {c : Benchmark ι} (ho : o = some c)
    (hnodup : rows.Nodup) (hmem : rowOf c ∈ rows) : ∀ b ∈ o, rows.count (rowOf b) = 1 := by
  intro b hb
  obtain rfl : c = b := Option.some.inj (ho.symm.trans hb)
  exact List.count_eq_one_of_mem hnodup hmem

section Listing
variable {group : LoadStoreGroup ι} {first second : Benchmark ι}

/-- A group of two benchmarks, whose last one is the second. -/
lemma printBenches_two (h : group.benches = [first,second]) :
    group.printBenches = .ok [rowOf first,rowOf second,.moreNotShown (2-3),rowOf second,
      .moreNotShown (2-3)] := by
  rw [printBenches,h]
  rfl

lemma printBenches_more {rest : List (Benchmark ι)} (h : group.benches = first::second::rest)
    {back : Benchmark ι} (hback : rest.getLast? = some back) :
    group.printBenches = .ok [rowOf first,rowOf second,
      .moreNotShown (group.benches.length.toUInt64-3),rowOf back] := by
  rw [printBenches,h]
  simp only [hback]
  rfl

/-- The second benchmark is listed as the last one again. -/
lemma not_summarizes_two (h : group.benches = [first,second])
    (hpath : first.getPath ≠ second.getPath) :
    ¬ ∃ rows, group.printBenches = .ok rows ∧ Summarizes group rows := by
  rintro ⟨rows,hrows,hsum⟩
  rw [printBenches_two h] at hrows
  obtain rfl := Except.ok.inj hrows
  have hsecond := hsum.second second (by rw [h]; rfl)
  simp [List.count_cons,rowOf_ne hpath] at hsecond

/-- Three benchmarks of different paths, so that each has one row, and the count of the others. -/
lemma summarizes_more {rest : List (Benchmark ι)} (h : group.benches = first::second::rest)
    {back : Benchmark ι} (hback : rest.getLast? = some back)
    (hpaths : (group.benches.map Benchmark.getPath).Nodup) (hlt : group.benches.length < 2^64) :
    ∃ rows, group.printBenches = .ok rows ∧ Summarizes group rows := by
  have hmem : back ∈ rest := List.mem_of_getLast? hback
  rw [h] at hpaths
  have hthree : [first.getPath,second.getPath,back.getPath].Nodup := by
    refine hpaths.sublist (((List.singleton_sublist.mpr ?_).cons_cons _).cons_cons _)
    exact List.mem_map_of_mem hmem
  obtain ⟨⟨hfs,hfb⟩,hsb⟩ : (first.getPath ≠ second.getPath ∧ first.getPath ≠ back.getPath) ∧
      second.getPath ≠ back.getPath := by simpa using hthree
  have hlen : 3 ≤ group.benches.length := by
    have hpos := List.length_pos_of_mem hmem
    rw [h,List.length_cons,List.length_cons]
    omega
  have hfirst : group.benches[0]? = some first := by rw [h,List.getElem?_cons_zero]
  have hsecond : group.benches[1]? = some second := by
    rw [h,List.getElem?_cons_succ,List.getElem?_cons_zero]
  have hlast : group.benches.getLast? = some back := by
    rw [h]
    simp [List.getLast?_cons,hback]
  have hhidden : (group.benches.length.toUInt64-3).toNat = group.benches.length-3 := by
    have hsize : group.benches.length.toUInt64.toNat = group.benches.length :=
      UInt64.toNat_ofNat_of_lt' hlt
    rw [UInt64.toNat_sub_of_le]
    · rw [hsize]
      rfl
    · rw [UInt64.le_iff_toNat_le,hsize]
      exact hlen
  have hnodup : [rowOf first,rowOf second,.moreNotShown (group.benches.length.toUInt64-3),
      rowOf back].Nodup := by
    have hrows := And.intro (And.intro (rowOf_ne hfs) (rowOf_ne hfb)) (rowOf_ne hsb)
    simpa [rowOf] using hrows
  refine ⟨_,printBenches_more h hback,?_,?_,?_,_,rfl,?_⟩
  · exact listed_once hfirst hnodup (by simp)
  · exact listed_once hsecond hnodup (by simp)
  · exact listed_once hlast hnodup (by simp)
  · have hlisted : [rowOf first,rowOf second,Row.moreNotShown
        (group.benches.length.toUInt64-3),rowOf back].filterMap Row.path? =
        [first.getPath,second.getPath,back.getPath] := rfl
    rw [hlisted,hthree.dedup,hhidden,List.length_cons,List.length_cons,List.length_singleton]
    omega

end Listing

/-- A group to which calls have added at least two benchmarks is summarized well unless it has
exactly two: then the second is also the last one, and more benchmarks are hidden than fit a
group. -/
theorem printBenches_summarizes_iff {ref : GroupRef} (calls : List (AddCall ref ι))
    (group : LoadStoreGroup ι)
    (hgroup : group.toBenchmarkGroup = ((⟨ref,[]⟩ : BenchmarkGroup ι).addCalls calls).group)
    (htwo : 2 ≤ group.benches.length) (hlt : group.benches.length < 2^64) :
    (∃ rows, group.printBenches = .ok rows ∧ Summarizes group rows) ↔
      3 ≤ group.benches.length := by
  have hpaths : (group.benches.map Benchmark.getPath).Nodup := by
    rw [hgroup]
    exact (BenchmarkGroup.addCalls_distinct calls).paths
  cases h : group.benches with
  | nil => simp [h] at htwo
  | cons first tail =>
    cases tail with
    | nil => simp [h] at htwo
    | cons second rest =>
      cases hback : rest.getLast? with
      | none =>
        obtain rfl := List.getLast?_eq_none_iff.mp hback
        have hne : first.getPath ≠ second.getPath := by simpa [h] using hpaths
        exact iff_of_false (not_summarizes_two h hne) (by simp)
      | some back =>
        have hpos := List.length_pos_of_mem (List.mem_of_getLast? hback)
        refine iff_of_true (summarizes_more h hback hpaths hlt) ?_
        rw [List.length_cons,List.length_cons]
        omega

/-- A benchmark of a group. -/
def smallCandidate (id : String) : Candidate ⟨"store","Store"⟩ Unit :=
  ⟨⟨⟨⟨"store","Store"⟩,id,id,[],[],1⟩,()⟩,true,fun _ => rfl⟩

/-- The group to which benchmarks of some IDs have been added. -/
def smallGroup (ids : List String) : LoadStoreGroup Unit :=
  ⟨((⟨⟨"store","Store"⟩,[]⟩ : BenchmarkGroup Unit).addCalls
    [AddCall.bulk (ids.map smallCandidate)]).group,4,16,4,by decide,by decide⟩

theorem printBenches_summarizes_three :
    (∃ rows, (smallGroup ["a","b","c"]).printBenches = .ok rows ∧
      Summarizes (smallGroup ["a","b","c"]) rows) ↔
      3 ≤ (smallGroup ["a","b","c"]).benches.length :=
  printBenches_summarizes_iff [AddCall.bulk (["a","b","c"].map smallCandidate)] _ rfl
    (by decide) (by decide)

/-- With two benchmarks the second one is listed twice. -/
theorem printBenches_second_twice :
    (smallGroup ["a","b"]).benches.length = 2 ∧
      ¬ ∃ rows, (smallGroup ["a","b"]).printBenches = .ok rows ∧
        Summarizes (smallGroup ["a","b"]) rows :=
  ⟨by decide,not_summarizes_two rfl (by decide)⟩

end UarchBench.Selection.LoadStoreGroup
