import UarchBench.Cli.Main
import UarchBench.Host.Launcher
import Mathlib.Data.List.DropRight

/-! The launcher asks the program for the timer before it runs the benchmarks: the kernel module is
loaded for the timer that they are run with, unless the terminator ends the command line. -/
namespace UarchBench.Launcher
open Args Base Cli Registration Selection Util
variable {μ ρ ω α : Type}

def internalDumpTimer : Text := "--internal-dump-timer".toList

/-- What `tail -1` shows of a text, without the newline at its end. -/
def lastLine (t : Text) : Text :=
  (if t.getLast? = some '\n' then t.dropLast else t).rtakeWhile (· ≠ '\n')

/-- The standard output of the program: its two first lines and what it prints in the end. -/
def stdout {ι : Type} (banner : Text) (printed : Action ι → Text) (p : Process ι) : Text :=
  banner ++ p.done.flatMap (fun a => match a with
    | .dumpTimer name => name
    | a => printed a)

/-- `selected_timer`, for the command line that the benchmarks are run with. -/
def selectedTimer (machine : Machine (BenchImpl μ ρ ω α) α) (banner : Text)
    (printed : Action (BenchImpl μ ρ ω α) → Text) (args : List Text) : String :=
  String.ofList (lastLine (stdout banner printed (main machine (args ++ [internalDumpTimer]))))

lemma lastLine_append {banner name : Text} (hbanner : banner.getLast? = some '\n')
    (hname : name ≠ []) (hline : '\n' ∉ name) : lastLine (banner ++ name) = name := by
  obtain ⟨body,rfl⟩ := List.getLast?_eq_some_iff.mp hbanner
  have hlast : (body ++ ['\n'] ++ name).getLast? ≠ some '\n' := by
    rw [List.getLast?_append_of_ne_nil _ hname]
    exact fun h => hline (List.mem_of_getLast? h)
  have hall : ∀ c ∈ name.reverse, decide (c ≠ '\n') = true := fun c hc =>
    decide_eq_true fun heq => hline (heq ▸ List.mem_reverse.mp hc)
  rw [lastLine,if_neg hlast,List.rtakeWhile,List.reverse_append,List.reverse_append,
    List.takeWhile_append_of_pos hall]
  change (name.reverse ++ List.takeWhile _ ('\n'::body.reverse)).reverse = name
  rw [List.takeWhile_cons_of_neg (by simp),List.append_nil,List.reverse_reverse]

section Dump
variable {args words : List Text} {uses : List (Use Cli.Settings)} {s : Cli.Settings}

lemma parseCli_words (hwords : Words parser words uses) (rest : List Text) :
    parseCli (words ++ rest) =
      uses.foldlM Use.apply {} >>= parser.parseFrom false rest :=
  parseFrom_words hwords

lemma parseCli_fold (hwords : Words parser args uses) :
    parseCli args = uses.foldlM Use.apply {} := by
  have h := parseCli_words hwords []
  rw [List.append_nil] at h
  rw [h]
  cases uses.foldlM Use.apply {} with
  | error e => rfl
  | ok s => exact ArgumentParser.parseFrom.eq_1 ..

/-- One more flag behind words. -/
lemma parseCli_dump (hwords : Words parser args uses) (h : parseCli args = .ok s) :
    parseCli (args ++ [internalDumpTimer]) = .ok { s with argInternalDumpTimer := true } := by
  have hdump : Word parser internalDumpTimer [] [⟨Cli.argInternalDumpTimer,_,none⟩] :=
    .switch rfl rfl (by decide) (by decide)
  rw [parseCli_words hwords,← parseCli_fold hwords,h]
  refine (parseFrom_word hdump).trans ?_
  exact ArgumentParser.parseFrom.eq_1 ..

/-- Behind the terminator the flag is an argument that nothing receives. -/
lemma parseCli_terminated (hwords : Words parser words uses)
    (h : uses.foldlM Use.apply {} = .ok s) :
    parseCli (words ++ [['-','-']] ++ [internalDumpTimer]) =
      .error (.parse ("Passed in argument, but no positional arguments were ready ".toList ++
        "to receive it: ".toList ++ internalDumpTimer)) := by
  rw [List.append_assoc,parseCli_words hwords,h]
  change parser.parseFrom false [['-','-'],internalDumpTimer] s = _
  rw [ArgumentParser.parseFrom,if_pos ⟨rfl,rfl⟩,ArgumentParser.parseFrom]
  rfl

end Dump
/-- The timers that the program is built with. -/
def timerNames : List Text := ["clock".toList,"libpfc".toList,"perf".toList]

lemma ne_nil_of_timerNames {name : Text} (h : name ∈ timerNames) : name ≠ [] := by
  rintro rfl
  revert h
  decide

lemma newline_of_timerNames {name : Text} (h : name ∈ timerNames) : '\n' ∉ name := by
  revert name
  decide

section Agreement
variable {machine : Machine (BenchImpl μ ρ ω α) α} {args : List Text} {name extraEvents : Text}

lemma init_name (h : .init name extraEvents ∈ (main machine args).done) :
    ∃ s, ∃ timer ∈ machine.all, parseCli args = .ok s ∧ timer.name = name ∧
      s.getTimerName = name ∧ s.argListtimers = false ∧ s.argListbenches = false ∧
      s.argClockoverhead = false := by
  obtain ⟨s,hparse,hmain,htimers,hbenches,hclock,-⟩ := main_of_isRun h rfl
  rw [hmain] at h
  have hpinned := runPinned_pinned machine s
  generalize runPinned machine s = p at h hpinned
  obtain ⟨timer,found,heq⟩ : ∃ timer, getForTimer machine s = .ok timer ∧ timer.name = name := by
    cases hpinned with
    | unpinned what => exact absurd h List.not_mem_nil
    | noTimer cpu what => simp at h
    | listed cpu name => simp [Progress.just] at h
    | @failed cpu what timer found =>
      simp only [List.mem_cons,reduceCtorEq,Action.init.injEq,List.not_mem_nil,or_false,
        false_or] at h
      exact ⟨timer,found,h.1.symm⟩
    | @ready cpu timer chosen set found inits =>
      simp only [runBenches,List.mem_cons,reduceCtorEq,Action.init.injEq,List.mem_map,and_false,
        exists_false,or_false,false_or] at h
      exact ⟨timer,found,h.1.symm⟩
  obtain ⟨hmem,hname⟩ := getForTimer_name found
  exact ⟨s,timer,hmem,hparse,heq,hname ▸ heq,htimers,hbenches,hclock⟩

/-- Whatever the benchmarks are run with, `pfc.ko` has been loaded before if they use `libpfc` and has
not been touched otherwise, if nothing ends the flags. Behind a terminator the flag of the script is
refused, and the timer is not known. -/
theorem loadLibpfc_agrees {banner : Text} (hbanner : banner.getLast? = some '\n')
    (printed : Action (BenchImpl μ ρ ω α) → Text)
    (hnames : ∀ timer ∈ machine.all, timer.name ∈ timerNames)
    (hinit : .init name extraEvents ∈ (main machine args).done) (host : Host) :
    (∃ uses, Words parser args uses) ∧
      loadLibpfc { host with selectedTimer := selectedTimer machine banner printed args } =
        (if name = "libpfc".toList then command host.insmod else pure ()) ∨
    (∃ words uses, args = words ++ [['-','-']] ∧ Words parser words uses) ∧
      (main machine (args ++ [internalDumpTimer])).done =
        [.error ("Passed in argument, but no positional arguments were ready ".toList ++
          "to receive it: ".toList ++ internalDumpTimer),.usage] := by
  obtain ⟨s,timer,hmem,hparse,rfl,hname,htimers,hbenches,hclock⟩ := init_name hinit
  obtain ⟨words,uses,rfl | rfl,hwords,huses⟩ := (parseArgs_ok_iff plain_flags).mp hparse
  · refine Or.inl ⟨⟨uses,hwords⟩,?_⟩
    have hmain : main machine (args ++ [internalDumpTimer]) =
        ⟨[.dumpTimer timer.name],some .silentSuccess⟩ := by
      rw [main,parseCli_dump hwords hparse]
      simp only [Cli.run,htimers,hbenches,hclock,Bool.false_eq_true,if_false,if_true,← hname]
      rfl
    have hselected : selectedTimer machine banner printed args = String.ofList timer.name := by
      rw [selectedTimer,hmain,stdout,List.flatMap_singleton]
      exact congrArg String.ofList (lastLine_append hbanner (ne_nil_of_timerNames (hnames _ hmem))
        (newline_of_timerNames (hnames _ hmem)))
    have hlibpfc : String.ofList timer.name = "libpfc" ↔ timer.name = "libpfc".toList :=
      ⟨fun h => by rw [← h,String.toList_ofList],fun h => by rw [h,String.ofList_toList]⟩
    rw [loadLibpfc,hselected]
    exact if_congr hlibpfc rfl rfl
  · refine Or.inr ⟨⟨words,uses,rfl,hwords⟩,?_⟩
    rw [main,parseCli_terminated hwords huses]

end Agreement
/-- A host with two timers and no benchmarks. -/
def twoTimers : Machine (BenchImpl Unit Unit Unit Unit) Unit where
  all := [⟨"clock".toList,"Use the system clock".toList,[],fun _ => none⟩,
    ⟨"libpfc".toList,"Use libpfc".toList,[],fun _ => none⟩]
  platform := ⟨fun _ => true,()⟩
  getaffinity := .ok (fun _ => true)
  setaffinity _ := none
  errnoToStr _ := "Invalid argument".toList

def twoTimersHost : Host :=
  ⟨true,"GenuineIntel",false,false,false,0,[],"",2,0⟩

lemma parseCli_libpfc : parseCli ["--timer=libpfc".toList,"-c0".toList] =
    .ok { argTimer := ⟨true,"libpfc".toList⟩, argPincpu := ⟨true,0⟩ } := by
  have htimer : Word parser "--timer=libpfc".toList []
      [⟨Cli.argTimer,"timer".toList,some "libpfc".toList⟩] :=
    .joined rfl rfl (show '=' ∉ "timer".toList by decide)
  have hcpu : Word parser "-c0".toList [] [⟨Cli.argPincpu,['c'],some ['0']⟩] :=
    .shorts (c := 'c') (by decide) (.joined rfl rfl (by decide))
  exact (parseFrom_words (.cons htimer (.cons hcpu .nil))).trans
    (ArgumentParser.parseFrom.eq_1 ..)

theorem loadLibpfc_agrees_libpfc :
    (∃ uses, Words parser ["--timer=libpfc".toList,"-c0".toList] uses) ∧
      loadLibpfc { twoTimersHost with
        selectedTimer := selectedTimer twoTimers ['\n'] (fun _ => [])
          ["--timer=libpfc".toList,"-c0".toList] } =
        (if "libpfc".toList = "libpfc".toList then command 2 else pure ()) ∨
    (∃ words uses, ["--timer=libpfc".toList,"-c0".toList] = words ++ [['-','-']] ∧
      Words parser words uses) ∧
      (main twoTimers (["--timer=libpfc".toList,"-c0".toList] ++ [internalDumpTimer])).done =
        [.error ("Passed in argument, but no positional arguments were ready ".toList ++
          "to receive it: ".toList ++ internalDumpTimer),.usage] := by
  have hinit : .init "libpfc".toList [] ∈
      (main twoTimers ["--timer=libpfc".toList,"-c0".toList]).done := by
    rw [main,parseCli_libpfc]
    exact List.mem_cons_of_mem _ List.mem_cons_self
  exact loadLibpfc_agrees rfl (fun _ => []) (by decide) hinit twoTimersHost

end UarchBench.Launcher
