import UarchBench.Selection.Groups
import UarchBench.Selection.Glob
import UarchBench.Selection.TagMatcher

/-! What the program measures under the name pattern and the tag list of its command line. Plain
and oneshot groups test each benchmark by itself; a load and store group is tested as a whole. -/
namespace UarchBench.Selection
open Base Util Registration

/-- The two flags that select benchmarks. -/
structure RunArgs where
  testName : Option String
  testTag : Option String
  deriving DecidableEq, Repr

section Predicate
variable {ι : Type}

def tagPredicate (patternList : String) : Predicate ι :=
  fun b => (TagMatcher.construct patternList.toList).accepts (b.getTags.map String.toList)

def namePredicate (name : String) : Predicate ι :=
  fun b => wildcardMatch b.getPath.toList name.toList

def predAnd (left right : Predicate ι) : Predicate ι := fun b => do
  if ← left b then right b else return false

/-- The predicate that `Context::run` assembles. -/
def predicate (args : RunArgs) : Predicate ι :=
  if args.testTag = none ∧ args.testName = none then tagPredicate "default"
  else
    let pred : Predicate ι := match args.testName with
      | some name => namePredicate name
      | none => fun _ => .ok true
    match args.testTag with
    | some patternList => predAnd pred (tagPredicate patternList)
    | none => pred

/-- The name pattern matches the path and the tag list accepts the tags, as far as they are
given; without either the tag list is `default`. -/
def Selected (args : RunArgs) (b : Benchmark ι) : Prop :=
  (∀ name ∈ args.testName, namePredicate name b = .ok true) ∧
  (∀ patternList ∈ args.testTag, tagPredicate patternList b = .ok true) ∧
  (args.testName = none → args.testTag = none → tagPredicate "default" b = .ok true)

lemma predAnd_true_iff (left right : Predicate ι) (b : Benchmark ι) :
    predAnd left right b = .ok true ↔ left b = .ok true ∧ right b = .ok true := by
  rw [predAnd]
  cases hleft : left b with
  | error e => exact ⟨nofun,fun h => nomatch h.1⟩
  | ok l =>
    cases l with
    | true => exact ⟨fun h => ⟨rfl,h⟩,fun h => h.2⟩
    | false => exact ⟨nofun,fun h => nomatch h.1⟩

theorem predicate_true_iff (args : RunArgs) (b : Benchmark ι) :
    predicate args b = .ok true ↔ Selected args b := by
  obtain ⟨testName,testTag⟩ := args
  cases testName with
  | none =>
    cases testTag with
    | none => simp [predicate,Selected]
    | some patternList => simp [predicate,Selected,predAnd_true_iff]
  | some name =>
    cases testTag with
    | none => simp [predicate,Selected]
    | some patternList => simp [predicate,Selected,predAnd_true_iff]

instance (args : RunArgs) : DecidablePred (Selected (ι := ι) args) := fun b =>
  decidable_of_iff _ (predicate_true_iff args b)

end Predicate

section Run
variable {μ ρ ω α : Type}

/-- `TimeredList::runIf` under the predicate of the command line. -/
def contextRun (platform : Platform α) (args : RunArgs)
    (groups : List (Group (BenchImpl μ ρ ω α))) : Run (BenchImpl μ ρ ω α) :=
  Progress.forEach (Group.runIf platform (predicate args)) groups

/-- A benchmark that is tested, and the benchmarks that are measured if it is accepted. -/
structure Candidate (ι : Type) where
  tested : Benchmark ι
  measured : List (Benchmark ι)

def Group.candidates (platform : Platform α) :
    Group (BenchImpl μ ρ ω α) → List (Candidate (BenchImpl μ ρ ω α))
  | .plain group | .oneshot group => group.benches.map (fun b => ⟨b,[b]⟩)
  | .loadStore group => [⟨group.fake platform,group.benches⟩]

def Candidate.run {ι : Type} (args : RunArgs) (c : Candidate ι) : Run ι :=
  whenAccepted (predicate args) c.tested (Progress.just c.measured)

lemma Platform.supports_all {platform : Platform α} (h : ∀ f, platform.supported f = true)
    (features : List X86Feature) : platform.supports features = true :=
  List.all_eq_true.mpr (fun f _ => h f)

/-- The grid is measured from its first benchmark to its last. -/
lemma forEach_run {benches : List (Benchmark (BenchImpl μ ρ ω α))}
    (h : ∀ b ∈ benches, ∃ t, b.impl = .bench t) :
    Progress.forEach Selection.run benches = Progress.just benches := by
  have hone : ∀ b ∈ benches, Selection.run b = Progress.just [b] := by
    intro b hb
    obtain ⟨t,ht⟩ := h b hb
    rw [Selection.run,ht]
  rw [Progress.forEach_congr hone,Progress.forEach_done (fun _ _ => rfl)]
  exact congrArg Progress.just (List.flatMap_singleton' benches)

/-- Every kind of group runs its candidates in order. -/
lemma Group.runIf_candidates {platform : Platform α} (hsupp : ∀ f, platform.supported f = true)
    (args : RunArgs) {group : Group (BenchImpl μ ρ ω α)}
    (hfilled : ∀ g, group = .loadStore g → g.Filled) :
    group.runIf platform (predicate args) =
      Progress.forEach (Candidate.run args) (group.candidates platform) := by
  have hplain : ∀ g : BenchmarkGroup (BenchImpl μ ρ ω α),
      Selection.runIf platform (predicate args) g = Progress.forEach (Candidate.run args)
        (g.benches.map (fun b => ⟨b,[b]⟩)) := by
    intro g
    rw [Progress.forEach_map,Selection.runIf]
    refine Progress.forEach_congr (fun b _ => ?_)
    rw [runAndPrint,if_pos (Platform.supports_all hsupp _)]
    rfl
  cases group with
  | plain g => exact hplain g
  | oneshot g => exact hplain g
  | loadStore g =>
    have hg := hfilled g rfl
    obtain ⟨front,benches,hbenches⟩ := List.exists_cons_of_ne_nil hg.nonempty
    have hrun := forEach_run hg.delta
    have hhead : g.benches.head? = some front := by rw [hbenches]; rfl
    change LoadStoreGroup.runIf platform (predicate args) g = _
    rw [LoadStoreGroup.runIf,hhead]
    simp only [Platform.supports_all hsupp,if_pos hg.length_eq,hrun]
    exact (Progress.andThen_nothing _).symm

lemma contextRun_candidates {platform : Platform α} (hsupp : ∀ f, platform.supported f = true)
    (args : RunArgs) {groups : List (Group (BenchImpl μ ρ ω α))}
    (hfilled : ∀ g, Group.loadStore g ∈ groups → g.Filled) :
    contextRun platform args groups = Progress.forEach (Candidate.run args)
      (groups.flatMap (Group.candidates platform)) := by
  rw [contextRun,← Progress.forEach_forEach]
  exact Progress.forEach_congr (fun group hgroup =>
    Group.runIf_candidates hsupp args (fun g heq => hfilled g (heq ▸ hgroup)))

lemma Candidate.run_ok {ι : Type} {args : RunArgs} {c : Candidate ι}
    (h : (c.run args).thrown = none) : (∃ b, predicate args c.tested = .ok b) ∧
      (c.run args).done = if Selected args c.tested then c.measured else [] := by
  rw [Candidate.run,whenAccepted] at h ⊢
  have htrue := predicate_true_iff args c.tested
  cases hb : predicate args c.tested with
  | error e =>
    rw [hb] at h
    cases h
  | ok b =>
    rw [hb] at htrue
    cases b with
    | true => exact ⟨⟨_,rfl⟩,(if_pos (htrue.mp rfl)).symm⟩
    | false => exact ⟨⟨_,rfl⟩,(if_neg (fun hsel => nomatch htrue.mpr hsel)).symm⟩

lemma Candidate.run_thrown {ι : Type} {args : RunArgs} {c : Candidate ι} {e : RunError}
    (h : (c.run args).thrown = some e) :
    (c.run args).done = [] ∧ ∃ e', predicate args c.tested = .error e' ∧ e = .regex e' := by
  rw [Candidate.run,whenAccepted] at h ⊢
  cases hb : predicate args c.tested with
  | error e' =>
    rw [hb] at h
    cases h
    exact ⟨rfl,e',rfl,rfl⟩
  | ok b =>
    rw [hb] at h
    cases b <;> cases h

lemma flatMap_selected {ι : Type} (args : RunArgs) {cs : List (Candidate ι)}
    (h : ∀ c ∈ cs, (c.run args).thrown = none) : cs.flatMap (fun c => (c.run args).done) =
      (cs.filter (fun c => Selected args c.tested)).flatMap Candidate.measured := by
  induction cs with
  | nil => rfl
  | cons c cs ih =>
    rw [List.flatMap_cons,ih (fun d hd => h d (List.mem_cons_of_mem c hd)),
      (Candidate.run_ok (h c List.mem_cons_self)).2,List.filter_cons]
    by_cases hsel : Selected args c.tested
    · simp [hsel]
    · simp [hsel]

/-- The run tests the candidates in order. It measures those that are selected, up to the end or to
the first one at which matching throws. -/
def RunsSelected (platform : Platform α) (args : RunArgs)
    (groups : List (Group (BenchImpl μ ρ ω α))) : Prop :=
  ∃ reached rest, groups.flatMap (Group.candidates platform) = reached ++ rest ∧
    (contextRun platform args groups).done =
      (reached.filter (fun c => Selected args c.tested)).flatMap Candidate.measured ∧
    (∀ c ∈ reached, ∃ b, predicate args c.tested = .ok b) ∧
    ((rest = [] ∧ (contextRun platform args groups).thrown = none) ∨
      ∃ c after e, rest = c::after ∧ predicate args c.tested = .error e ∧
        (contextRun platform args groups).thrown = some (.regex e))

lemma runsSelected {platform : Platform α} (hsupp : ∀ f, platform.supported f = true)
    (args : RunArgs) {groups : List (Group (BenchImpl μ ρ ω α))}
    (hfilled : ∀ g, Group.loadStore g ∈ groups → g.Filled) :
    RunsSelected platform args groups := by
  rw [RunsSelected,contextRun_candidates hsupp args hfilled]
  rcases Progress.first_thrown (Candidate.run args)
    (groups.flatMap (Group.candidates platform)) with
    hall | ⟨before,c,after,e,hsplit,hbefore,hthrown⟩
  · refine ⟨_,[],(List.append_nil _).symm,?_,fun c hc => (Candidate.run_ok (hall c hc)).1,?_⟩
    · rw [Progress.forEach_done hall]
      exact flatMap_selected args hall
    · rw [Progress.forEach_done hall]
      exact Or.inl ⟨rfl,rfl⟩
  · obtain ⟨hdone,e',hpred,rfl⟩ := Candidate.run_thrown hthrown
    rw [hsplit,Progress.forEach_thrown hbefore hthrown,hdone,List.append_nil]
    exact ⟨before,c::after,rfl,flatMap_selected args hbefore,
      fun d hd => (Candidate.run_ok (hbefore d hd)).1,Or.inr ⟨c,after,e',rfl,hpred,rfl⟩⟩

/-- A path of the listing, given as the name pattern, runs the benchmark that it is the path of. -/
def ListedPathsRun (platform : Platform α) (groups : List (Group (BenchImpl μ ρ ω α))) : Prop :=
  ∀ group, Group.plain group ∈ groups ∨ Group.oneshot group ∈ groups →
    ∀ row ∈ printBenches group, BackslashesBeforeDashes row.path.toList →
      (∀ c ∈ row.path.toList, isLineTerminator c = false) →
      ∃ b ∈ group.benches, b.getPath = row.path ∧
        b ∈ (contextRun platform ⟨some row.path,none⟩ groups).done

lemma listedPathsRun {platform : Platform α} (hsupp : ∀ f, platform.supported f = true)
    {groups : List (Group (BenchImpl μ ρ ω α))}
    (hfilled : ∀ g, Group.loadStore g ∈ groups → g.Filled) : ListedPathsRun platform groups := by
  intro group hgroup row hrow hback hline
  obtain ⟨b,hb,rfl⟩ := List.mem_map.mp hrow
  refine ⟨b,hb,rfl,?_⟩
  have hpred : ∀ d : Benchmark (BenchImpl μ ρ ω α), predicate ⟨some b.getPath,none⟩ d =
      .ok (regexMatch (globRegex b.getPath.toList) d.getPath.toList) :=
    fun d => wildcardMatch_globRegex hback d.getPath.toList
  have hself : Selected ⟨some b.getPath,none⟩ b := by
    rw [← predicate_true_iff,hpred]
    exact congrArg Except.ok ((regexMatch_globRegex _ hline).mpr (mem_glob_self _))
  have hcandidate : (⟨b,[b]⟩ : Candidate (BenchImpl μ ρ ω α)) ∈
      groups.flatMap (Group.candidates platform) := by
    rcases hgroup with hgroup | hgroup
    · exact List.mem_flatMap.mpr ⟨_,hgroup,List.mem_map_of_mem hb⟩
    · exact List.mem_flatMap.mpr ⟨_,hgroup,List.mem_map_of_mem hb⟩
  obtain ⟨reached,rest,hsplit,hdone,-,hend⟩ :=
    runsSelected hsupp ⟨some b.getPath,none⟩ hfilled
  rcases hend with ⟨rfl,-⟩ | ⟨c,after,e,-,herror,-⟩
  · rw [hsplit,List.append_nil] at hcandidate
    rw [hdone]
    exact List.mem_flatMap.mpr ⟨_,List.mem_filter.mpr ⟨hcandidate,decide_eq_true hself⟩,
      List.mem_singleton_self b⟩
  · rw [hpred] at herror
    cases herror

theorem contextRun_exact (platform : Platform α) (hsupp : ∀ f, platform.supported f = true)
    (groups : List (Group (BenchImpl μ ρ ω α)))
    (hfilled : ∀ g, Group.loadStore g ∈ groups → g.Filled) :
    (∀ args, RunsSelected platform args groups) ∧ ListedPathsRun platform groups :=
  ⟨fun args => runsSelected hsupp args hfilled,listedPathsRun hsupp hfilled⟩

/-- A grid of load benchmarks. -/
def loadGrid : LoadStoreGroup (BenchImpl Unit Unit Unit Unit) :=
  {(LoadStoreGroup.makeGroup "load/16-bit" "load/16-bit" 2 :
      LoadStoreGroup (BenchImpl Unit Unit Unit Unit)) with
    benches := (List.range 64).map (LoadStoreGroup.makeOne
      ((DeltaMaker.construct false ⟨"load/16-bit","load/16-bit"⟩ 1000).setFeatures [])
      (LoadStoreGroup.makeGroup "load/16-bit" "load/16-bit" 2) (fun _ => ()) (.method ()))}

/-- The group that the registration makes for 16-bit loads. -/
lemma make_loadGrid : LoadStoreGroup.make (fun _ => ()) (.method ()) "load/16-bit" 2 =
    (.ok loadGrid : Except String (LoadStoreGroup (BenchImpl Unit Unit Unit Unit))) :=
  LoadStoreGroup.make_eq _ _ _ _ _

/-- A listed path of the grid selects one of its benchmarks, but the grid is not run. -/
theorem contextRun_skips_grid : ¬ ∀ (platform : Platform Unit) (args : RunArgs)
    (groups : List (Group (BenchImpl Unit Unit Unit Unit))),
    (∀ f, platform.supported f = true) →
    (contextRun platform args groups).done =
      (groups.flatMap Group.benches).filter (fun b => Selected args b) := by
  intro h
  have hrun := h ⟨fun _ => true,()⟩ ⟨some "load/16-bit/misaligned-0",none⟩ [.loadStore loadGrid]
    (fun _ => rfl)
  have hnone : (contextRun ⟨fun _ => true,()⟩ ⟨some "load/16-bit/misaligned-0",none⟩
      [.loadStore loadGrid]).done = [] := by
    decide
  obtain ⟨b,hb,hselected⟩ : ∃ b ∈ ([.loadStore loadGrid] : List (Group _)).flatMap Group.benches,
      Selected ⟨some "load/16-bit/misaligned-0",none⟩ b :=
    ⟨_,List.mem_cons_self,by decide⟩
  have hmem : b ∈ (([.loadStore loadGrid] : List (Group _)).flatMap Group.benches).filter
      (fun b => Selected ⟨some "load/16-bit/misaligned-0",none⟩ b) :=
    List.mem_filter.mpr ⟨hb,decide_eq_true hselected⟩
  rw [← hrun,hnone] at hmem
  exact List.not_mem_nil hmem

/-- A group with one benchmark, which has the default tag. -/
def basicGroup : BenchmarkGroup (BenchImpl Unit Unit Unit Unit) :=
  let maker := (DeltaMaker.construct false ⟨"basic","Basic"⟩).setTags ["default"]
  ⟨⟨"basic","Basic"⟩,
    [ofDelta (maker.makeOnly (.method ()) "dependent-adds" "Dependent adds" 128 ())]⟩

theorem contextRun_exact_grid :
    (∀ args, RunsSelected (⟨fun _ => true,()⟩ : Platform Unit) args
      [.plain basicGroup,.loadStore loadGrid]) ∧
    ListedPathsRun (⟨fun _ => true,()⟩ : Platform Unit) [.plain basicGroup,.loadStore loadGrid] :=
  contextRun_exact _ (fun _ => rfl) _ (fun g hg => by
    obtain rfl : g = loadGrid := by simpa using hg
    exact LoadStoreGroup.make_filled make_loadGrid)

/-- Without flags the tags decide: the grid has none. -/
example : (contextRun (⟨fun _ => true,()⟩ : Platform Unit) ⟨none,none⟩
    [.plain basicGroup,.loadStore loadGrid]).done.map Benchmark.getPath =
      ["basic/dependent-adds"] := by decide

end Run
end UarchBench.Selection
