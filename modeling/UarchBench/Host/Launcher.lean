import UarchBench.Base.Script
import UarchBench.Base.Words
import UarchBench.Util.Split
import Mathlib.Logic.Function.Basic

/-! The launcher script: it turns turbo mode off and sets the governor of the first core to
`performance`, runs the benchmarks and sets both back. A command that fails ends the script. -/
namespace UarchBench.Launcher
open Base.Script Util

/-- What the script changes: `intel_pstate/no_turbo` if there is one, the scaling governor of the
first core and the register `0x1a0` of every core. -/
structure Settings where
  noTurbo : Option Bool
  governor : String
  miscEnable : ℕ → BitVec 64

/-- What the script finds on the host: statuses are those of the commands. -/
structure Host where
  inVm : Bool
  vendorId : String
  cpufreq : Bool
  rdmsr : Bool
  msrModule : Bool
  modprobe : ℕ
  cores : List ℕ
  selectedTimer : String
  insmod : ℕ
  uarchBench : ℕ

/-- The host and the variables of the shell; an unset one is empty. -/
structure Shell where
  settings : Settings
  scalingGovernor : String := ""
  originalGovernor : String := ""
  originalNoTurbo : Bool := false
  originalState : Text := []
  cores : List ℕ := []

/-- A command under `set -e`, with the exit status as error. -/
abbrev Script (α : Type) := EStateM ℕ Shell α

/-- A command that is known by its exit status. -/
def command (status : ℕ) : Script Unit := if status = 0 then pure () else throw status

/-- The bit that `rdmsr -f 38:38` shows. -/
def turboDisabled (settings : Settings) (core : ℕ) : Bool := (settings.miscEnable core).getLsbD 38

def wrmsr (core : ℕ) (value : BitVec 64) : Script Unit :=
  modify fun s => { s with settings :=
    { s.settings with miscEnable := Function.update s.settings.miscEnable core value } }

def writeNoTurbo (flag : Bool) : Script Unit :=
  modify fun s => { s with settings := { s.settings with noTurbo := some flag } }

def writeGovernor (governor : String) : Script Unit :=
  modify fun s => { s with settings := { s.settings with governor := governor } }

def getCoreTurboIntel (settings : Settings) (core : ℕ) : Text :=
  if turboDisabled settings core then ['1'] else ['0']

/-- `get_turbo_state_string`: the name `core` is not expanded in the text it appends. -/
def getTurboStateString (s : Shell) : Text :=
  let turboState := s.cores.foldl
    (fun t core => t ++ getCoreTurboIntel s.settings core ++ " core".toList) []
  -- unquoted, so that the shell splits it into words
  [' '].intercalate (Base.words ' ' turboState)

def checkMsrtoolsInstalled (host : Host) : Script Unit :=
  if host.rdmsr then
    if host.msrModule then pure () else command host.modprobe
  else throw 1

def checkNoTurbo (host : Host) : Script Unit := do
  if host.inVm then pure ()
  else
    match (← get).settings.noTurbo with
    | some noTurbo =>
      modify fun s => { s with originalNoTurbo := noTurbo }
      if noTurbo ≠ true then writeNoTurbo true
    | none =>
      checkMsrtoolsInstalled host
      modify fun s => { s with cores := host.cores }
      (← get).cores.forM (fun core => wrmsr core 0x4000850089)

/-- `((i++))`: its status is 1 when the value before is zero. -/
def postIncrement (i : ℕ) : Script ℕ := if i = 0 then throw 1 else pure (i+1)

def restoreNoTurbo (host : Host) : Script Unit := do
  if host.inVm then pure ()
  else
    match (← get).settings.noTurbo with
    | some _ =>
      let noTurbo := (← get).originalNoTurbo
      if noTurbo = false then writeNoTurbo noTurbo
    | none =>
      let origArray := Base.words ' ' (← get).originalState
      discard <| (← get).cores.foldlM (fun i core => do
        let origState := origArray.getD i []
        if origState = ['0'] then wrmsr core 0x850089
        postIncrement i) 0

/-- `SCALING_GOVERNOR`, which stays empty in a virtual machine. -/
def readScalingGovernor (host : Host) : Script Unit := do
  if host.inVm then pure ()
  else if host.cpufreq then
    modify fun s => { s with scalingGovernor := s.settings.governor }
  else throw 1

def saveOriginalState : Script Unit :=
  modify fun s => { s with originalState := getTurboStateString s }

def setPerformance : Script Unit := do
  let scalingGovernor := (← get).scalingGovernor
  if scalingGovernor ≠ "" ∧ scalingGovernor ≠ "performance" then
    modify fun s => { s with originalGovernor := scalingGovernor }
    writeGovernor "performance"

def disableTurbo (host : Host) : Script Unit :=
  if host.vendorId = "GenuineIntel" then checkNoTurbo host else pure ()

def loadLibpfc (host : Host) : Script Unit :=
  if host.selectedTimer = "libpfc" then command host.insmod else pure ()

def restoreGovernor : Script Unit := do
  let originalGovernor := (← get).originalGovernor
  if originalGovernor ≠ "" then writeGovernor originalGovernor

/-- The script up to the benchmarks. -/
def prepare (host : Host) : Script Unit := do
  readScalingGovernor host
  saveOriginalState
  setPerformance
  disableTurbo host

def benchmark (host : Host) : Script Unit := do
  loadLibpfc host
  command host.uarchBench

def restore (host : Host) : Script Unit := do
  restoreNoTurbo host
  restoreGovernor

def uarchBenchSh (host : Host) : Script Unit := do
  prepare host
  benchmark host
  restore host

/-- The settings of a host when the script has ended. -/
def settingsAfter (host : Host) (settings : Settings) : Settings :=
  (endState (uarchBenchSh host) { settings := settings }).settings

abbrev Host.Intel (host : Host) : Prop := host.vendorId = "GenuineIntel"

/-- The registers can be reached. -/
abbrev Host.MsrReady (host : Host) : Prop :=
  host.rdmsr = true ∧ (host.msrModule = true ∨ host.modprobe = 0)

def Host.BenchmarkSucceeds (host : Host) : Prop :=
  (host.selectedTimer = "libpfc" → host.insmod = 0) ∧ host.uarchBench = 0

instance (host : Host) : Decidable host.BenchmarkSucceeds :=
  inferInstanceAs (Decidable (_ ∧ _))

/-- The governor is left as it is. -/
abbrev Settings.GovernorKept (settings : Settings) : Prop :=
  settings.governor = "" ∨ settings.governor = "performance"

lemma command_ok {status : ℕ} (h : status = 0) (s : Shell) : command status s = .ok () s := by
  rw [command,if_pos h]
  rfl

lemma command_error {status : ℕ} (h : status ≠ 0) (s : Shell) :
    command status s = .error status s := by
  rw [command,if_neg h]
  rfl

lemma loadLibpfc_ok {host : Host} (h : host.selectedTimer = "libpfc" → host.insmod = 0)
    (s : Shell) : loadLibpfc host s = .ok () s := by
  rw [loadLibpfc]
  split
  · exact command_ok (h ‹_›) s
  · rfl

lemma benchmark_ok {host : Host} (h : host.BenchmarkSucceeds) (s : Shell) :
    benchmark host s = .ok () s := by
  rw [benchmark,bind_of_ok (loadLibpfc_ok h.1 s)]
  exact command_ok h.2 s

lemma benchmark_error {host : Host} (h : ¬ host.BenchmarkSucceeds) (s : Shell) :
    ∃ status, benchmark host s = .error status s := by
  by_cases hload : host.selectedTimer = "libpfc" → host.insmod = 0
  · have hbench : host.uarchBench ≠ 0 := fun hb => h ⟨hload,hb⟩
    refine ⟨host.uarchBench,?_⟩
    rw [benchmark,bind_of_ok (loadLibpfc_ok hload s)]
    exact command_error hbench s
  · obtain ⟨htimer,hinsmod⟩ := Classical.not_imp.mp hload
    refine ⟨host.insmod,bind_of_error ?_ _⟩
    rw [loadLibpfc,if_pos htimer]
    exact command_error hinsmod s

/-- The governor while the benchmarks run. -/
def Settings.raised (settings : Settings) : String :=
  if settings.GovernorKept then settings.governor else "performance"

/-- The shell after the governor has been set. -/
def performing (settings : Settings) : Shell where
  settings := { settings with governor := settings.raised }
  scalingGovernor := settings.governor
  originalGovernor := if settings.GovernorKept then "" else settings.governor

lemma raised_eq_iff (settings : Settings) :
    settings.raised = settings.governor ↔ settings.GovernorKept := by
  rw [Settings.raised]
  split
  · exact iff_of_true rfl ‹_›
  · exact ⟨fun h => Or.inr h.symm,fun h => absurd h ‹_›⟩

lemma prepare_inVm {host : Host} (h : host.inVm = true) (settings : Settings) :
    prepare host { settings := settings } = .ok () { settings := settings } := by
  have hread : readScalingGovernor host { settings := settings } =
      .ok () { settings := settings } := by
    rw [readScalingGovernor,if_pos h]
    rfl
  rw [prepare,bind_of_ok hread]
  change disableTurbo host { settings := settings } = _
  rw [disableTurbo]
  split
  · rw [checkNoTurbo,if_pos h]
    rfl
  · rfl

/-- Without the files of cpufreq the script ends before it changes anything. -/
lemma prepare_unreadable {host : Host} (hvm : ¬ host.inVm = true) (h : ¬ host.cpufreq = true)
    (settings : Settings) :
    prepare host { settings := settings } = .error 1 { settings := settings } := by
  apply bind_of_error
  rw [readScalingGovernor,if_neg hvm,if_neg h]
  rfl

lemma setPerformance_eq (settings : Settings) :
    setPerformance { settings := settings, scalingGovernor := settings.governor } =
      .ok () (performing settings) := by
  rw [setPerformance,get_bind,performing,Settings.raised]
  by_cases h : settings.GovernorKept
  · rw [if_pos h,if_pos h,if_neg (by rwa [← not_or,not_not])]
    rfl
  · rw [if_neg h,if_neg h,if_pos (by rwa [← not_or])]
    rfl

lemma prepare_readable {host : Host} (hvm : ¬ host.inVm = true) (h : host.cpufreq = true)
    (settings : Settings) :
    prepare host { settings := settings } = disableTurbo host (performing settings) := by
  have hread : readScalingGovernor host { settings := settings } =
      .ok () { settings := settings, scalingGovernor := settings.governor } := by
    rw [readScalingGovernor,if_neg hvm,if_pos h]
    rfl
  rw [prepare,bind_of_ok hread]
  -- no core is known yet, so that the saved state is empty
  change (setPerformance >>= fun _ => disableTurbo host)
    { settings := settings, scalingGovernor := settings.governor } = _
  rw [bind_of_ok (setPerformance_eq settings)]

/-- The settings with one value in the registers of some cores. -/
def Settings.withMsr (settings : Settings) (cores : List ℕ) (value : BitVec 64) : Settings :=
  { settings with
    miscEnable := fun core => if core ∈ cores then value else settings.miscEnable core }

lemma withMsr_cons (settings : Settings) (core : ℕ) (cores : List ℕ) (value : BitVec 64) :
    ({ settings with miscEnable := Function.update settings.miscEnable core value } :
      Settings).withMsr cores value = settings.withMsr (core::cores) value := by
  obtain ⟨noTurbo,governor,miscEnable⟩ := settings
  simp only [Settings.withMsr,Settings.mk.injEq,true_and]
  funext c
  by_cases hc : c = core <;> simp [hc,Function.update]

lemma forM_wrmsr (value : BitVec 64) (cores : List ℕ) (s : Shell) :
    (cores.forM (fun core => wrmsr core value)) s =
      .ok () { s with settings := s.settings.withMsr cores value } := by
  unfold wrmsr
  rw [forM_modify]
  induction cores generalizing s with
  | nil => simp [Settings.withMsr]
  | cons core cores ih => rw [List.foldl_cons,ih,← withMsr_cons]

section Turbo
variable {host : Host} {s : Shell}

lemma disableTurbo_other (h : ¬ host.Intel) (s : Shell) : disableTurbo host s = .ok () s := by
  rw [disableTurbo,if_neg h]
  rfl

lemma disableTurbo_flag (hvm : ¬ host.inVm = true) (h : host.Intel) {flag : Bool}
    (hflag : s.settings.noTurbo = some flag) :
    disableTurbo host s = .ok ()
      { s with settings := { s.settings with noTurbo := some true }, originalNoTurbo := flag } := by
  obtain ⟨⟨noTurbo,governor,miscEnable⟩,shell⟩ := s
  change noTurbo = some flag at hflag
  subst hflag
  rw [disableTurbo,if_pos h,checkNoTurbo,if_neg hvm]
  cases flag <;> rfl

lemma disableTurbo_unready (hvm : ¬ host.inVm = true) (h : host.Intel) (hready : ¬ host.MsrReady)
    (hflag : s.settings.noTurbo = none) : ∃ status, disableTurbo host s = .error status s := by
  have htools : ∃ status, checkMsrtoolsInstalled host s = .error status s := by
    rw [checkMsrtoolsInstalled]
    split
    · split
      · exact absurd ⟨‹_›,Or.inl ‹_›⟩ hready
      · exact ⟨_,command_error (fun hm => hready ⟨‹_›,Or.inr hm⟩) s⟩
    · exact ⟨1,rfl⟩
  obtain ⟨status,htools⟩ := htools
  refine ⟨status,?_⟩
  rw [disableTurbo,if_pos h,checkNoTurbo,if_neg hvm,get_bind,hflag]
  exact bind_of_error htools _

lemma disableTurbo_ready (hvm : ¬ host.inVm = true) (h : host.Intel) (hready : host.MsrReady)
    (hflag : s.settings.noTurbo = none) :
    disableTurbo host s = .ok ()
      { s with settings := s.settings.withMsr host.cores 0x4000850089, cores := host.cores } := by
  have htools : checkMsrtoolsInstalled host s = .ok () s := by
    rw [checkMsrtoolsInstalled,if_pos hready.1]
    split
    · rfl
    · exact command_ok (hready.2.resolve_left ‹_›) s
  rw [disableTurbo,if_pos h,checkNoTurbo,if_neg hvm,get_bind,hflag]
  dsimp only
  rw [bind_of_ok htools,modify_bind,get_bind,forM_wrmsr]

lemma restoreNoTurbo_flag (hvm : ¬ host.inVm = true) {flag : Bool}
    (hflag : s.settings.noTurbo = some flag) :
    restoreNoTurbo host s = .ok ()
      { s with settings := { s.settings with noTurbo := some (s.originalNoTurbo && flag) } } := by
  obtain ⟨⟨noTurbo,governor,miscEnable⟩,scalingGovernor,originalGovernor,originalNoTurbo,shell⟩ := s
  change noTurbo = some flag at hflag
  subst hflag
  rw [restoreNoTurbo,if_neg hvm]
  cases originalNoTurbo <;> rfl

lemma restoreNoTurbo_nil (hvm : ¬ host.inVm = true) (hflag : s.settings.noTurbo = none)
    (hcores : s.cores = []) : restoreNoTurbo host s = .ok () s := by
  rw [restoreNoTurbo,if_neg hvm,get_bind,hflag]
  dsimp only
  rw [get_bind,get_bind,hcores]
  rfl

/-- The saved state is empty, so that the first core is passed over, and then the script ends. -/
lemma restoreNoTurbo_cons (hvm : ¬ host.inVm = true) (hflag : s.settings.noTurbo = none)
    (hstate : s.originalState = []) (hcores : s.cores ≠ []) :
    restoreNoTurbo host s = .error 1 s := by
  obtain ⟨core,cores,hcores⟩ := List.exists_cons_of_ne_nil hcores
  rw [restoreNoTurbo,if_neg hvm,get_bind,hflag]
  dsimp only
  rw [get_bind,get_bind,hcores,hstate]
  rfl

end Turbo

lemma restoreGovernor_performing (settings : Settings) {s : Shell}
    (hraised : s.settings.governor = settings.raised)
    (horiginal : s.originalGovernor = (performing settings).originalGovernor) :
    (endState restoreGovernor s).settings = { s.settings with governor := settings.governor } := by
  obtain ⟨⟨noTurbo,governor,miscEnable⟩,scalingGovernor,originalGovernor,shell⟩ := s
  change governor = _ at hraised
  change originalGovernor = ite _ _ _ at horiginal
  subst hraised horiginal
  rw [endState,restoreGovernor,get_bind,Settings.raised]
  by_cases h : settings.GovernorKept
  · simp only [if_pos h,ne_eq,not_true_eq_false,if_false]
    rfl
  · simp only [if_neg h,ne_eq,if_pos (not_or.mp h).1]
    rfl

section Script
variable {host : Host} {settings : Settings} {s : Shell}

lemma settingsAfter_of_error {status : ℕ}
    (h : prepare host { settings := settings } = .error status s) :
    settingsAfter host settings = s.settings := by
  rw [settingsAfter,uarchBenchSh,endState_bind_of_error h]

lemma settingsAfter_of_ok (h : prepare host { settings := settings } = .ok () s) :
    settingsAfter host settings =
      if host.BenchmarkSucceeds then (endState (restore host) s).settings else s.settings := by
  rw [settingsAfter,uarchBenchSh,endState_bind_of_ok h]
  split
  · rw [endState_bind_of_ok (benchmark_ok ‹_› s)]
  · obtain ⟨status,hbench⟩ := benchmark_error ‹_› s
    rw [endState_bind_of_error hbench]

lemma settingsAfter_inVm (h : host.inVm = true) : settingsAfter host settings = settings := by
  have hturbo : restoreNoTurbo host { settings := settings } = .ok () { settings := settings } := by
    rw [restoreNoTurbo,if_pos h]
    rfl
  have hrestore : restore host { settings := settings } = .ok () { settings := settings } := by
    rw [restore,bind_of_ok hturbo]
    rfl
  rw [settingsAfter_of_ok (prepare_inVm h settings),endState_of_ok hrestore,ite_self]

/-- Another vendor's processor: turbo is not turned off but the flag, if there is one, set back. -/
lemma settingsAfter_other (hvm : ¬ host.inVm = true) (hfreq : host.cpufreq = true)
    (h : ¬ host.Intel) :
    settingsAfter host settings =
      if host.BenchmarkSucceeds then
        { settings with noTurbo := settings.noTurbo.map (fun _ => false) }
      else { settings with governor := settings.raised } := by
  rw [settingsAfter_of_ok ((prepare_readable hvm hfreq settings).trans (disableTurbo_other h _))]
  congr 1
  cases hflag : settings.noTurbo with
  | none =>
    rw [restore,endState_bind_of_ok (restoreNoTurbo_nil hvm hflag rfl),
      restoreGovernor_performing settings rfl rfl]
    simp only [performing,hflag,Option.map_none]
  | some flag =>
    rw [restore,endState_bind_of_ok (restoreNoTurbo_flag hvm hflag),
      restoreGovernor_performing settings]
    · rfl
    · rfl
    · rfl

lemma settingsAfter_flag (hvm : ¬ host.inVm = true) (hfreq : host.cpufreq = true) (h : host.Intel)
    {flag : Bool} (hflag : settings.noTurbo = some flag) :
    settingsAfter host settings =
      if host.BenchmarkSucceeds then settings
      else { settings with noTurbo := some true, governor := settings.raised } := by
  rw [settingsAfter_of_ok ((prepare_readable hvm hfreq settings).trans
    (disableTurbo_flag hvm h (s := performing settings) hflag))]
  congr 1
  rw [restore,endState_bind_of_ok (restoreNoTurbo_flag hvm rfl),restoreGovernor_performing settings]
  · simp only [performing,Bool.and_true,← hflag]
  · rfl
  · rfl

lemma settingsAfter_unready (hvm : ¬ host.inVm = true) (hfreq : host.cpufreq = true)
    (h : host.Intel) (hready : ¬ host.MsrReady) (hflag : settings.noTurbo = none) :
    settingsAfter host settings = { settings with governor := settings.raised } := by
  obtain ⟨status,hturbo⟩ := disableTurbo_unready hvm h hready (s := performing settings) hflag
  rw [settingsAfter_of_error ((prepare_readable hvm hfreq settings).trans hturbo)]
  rfl

/-- The registers are never written back, nor is the governor if there is a core. -/
lemma settingsAfter_ready (hvm : ¬ host.inVm = true) (hfreq : host.cpufreq = true) (h : host.Intel)
    (hready : host.MsrReady) (hflag : settings.noTurbo = none) :
    settingsAfter host settings = { settings.withMsr host.cores 0x4000850089 with
      governor := if host.cores = [] ∧ host.BenchmarkSucceeds then settings.governor
        else settings.raised } := by
  rw [settingsAfter_of_ok ((prepare_readable hvm hfreq settings).trans
    (disableTurbo_ready hvm h hready (s := performing settings) hflag))]
  by_cases hbench : host.BenchmarkSucceeds
  · rw [if_pos hbench,restore]
    by_cases hcores : host.cores = []
    · rw [endState_bind_of_ok (restoreNoTurbo_nil hvm hflag hcores),
        restoreGovernor_performing settings,if_pos ⟨hcores,hbench⟩]
      · rfl
      · rfl
      · rfl
    · rw [endState_bind_of_error (restoreNoTurbo_cons hvm hflag rfl hcores),
        if_neg (fun hn => hcores hn.1)]
      rfl
  · rw [if_neg hbench,if_neg (fun hn => hbench hn.2)]
    rfl

end Script

@[mk_iff]
structure Restored (host : Host) (before after : Settings) : Prop where
  noTurbo : after.noTurbo = before.noTurbo
  governor : after.governor = before.governor
  turbo : ∀ core ∈ host.cores, turboDisabled after core = turboDisabled before core

/-- When the settings are restored. -/
def RestoredWhen (host : Host) (settings : Settings) : Prop :=
  host.inVm = true ∨ host.cpufreq = false ∨
  match settings.noTurbo with
  | some flag =>
    (settings.GovernorKept ∨ host.BenchmarkSucceeds) ∧
    if host.Intel then flag = true ∨ host.BenchmarkSucceeds
    else flag = false ∨ ¬ host.BenchmarkSucceeds
  | none =>
    if host.Intel then
      if host.MsrReady then
        (∀ core ∈ host.cores, turboDisabled settings core = true) ∧
        (settings.GovernorKept ∨ host.cores = [] ∧ host.BenchmarkSucceeds)
      else settings.GovernorKept
    else settings.GovernorKept ∨ host.BenchmarkSucceeds

lemma restored_raised_iff (host : Host) (settings : Settings) :
    Restored host settings { settings with governor := settings.raised } ↔
      settings.GovernorKept := by
  rw [restored_iff,raised_eq_iff]
  exact ⟨fun h => h.2.1,fun h => ⟨rfl,h,fun core _ => rfl⟩⟩

lemma turboDisabled_withMsr {settings : Settings} {cores : List ℕ} {core : ℕ} (h : core ∈ cores) :
    turboDisabled (settings.withMsr cores 0x4000850089) core = true := by
  have hvalue : (settings.withMsr cores 0x4000850089).miscEnable core = 0x4000850089 := if_pos h
  rw [turboDisabled,hvalue]
  rfl

section Cases
variable {host : Host} {settings : Settings}
variable (hvm : ¬ host.inVm = true) (hfreq : host.cpufreq = true)
include hvm hfreq

lemma restored_other (h : ¬ host.Intel) :
    Restored host settings (settingsAfter host settings) ↔
      (settings.GovernorKept ∨ host.BenchmarkSucceeds) ∧
      ∀ flag, settings.noTurbo = some flag → flag = false ∨ ¬ host.BenchmarkSucceeds := by
  rw [settingsAfter_other hvm hfreq h]
  by_cases hbench : host.BenchmarkSucceeds
  · have hflag : settings.noTurbo.map (fun _ => false) = settings.noTurbo ↔
        ∀ flag, settings.noTurbo = some flag → flag = false := by
      cases settings.noTurbo <;> simp [eq_comm]
    rw [if_pos hbench,restored_iff,hflag]
    simp only [hbench,turboDisabled,or_true,not_true_eq_false,or_false,true_and]
    simp
  · rw [if_neg hbench,restored_raised_iff]
    simp only [hbench,or_false,not_false_eq_true,or_true,implies_true,and_true]

lemma restored_flag (h : host.Intel) {flag : Bool} (hflag : settings.noTurbo = some flag) :
    Restored host settings (settingsAfter host settings) ↔
      (settings.GovernorKept ∨ host.BenchmarkSucceeds) ∧
      (flag = true ∨ host.BenchmarkSucceeds) := by
  rw [settingsAfter_flag hvm hfreq h hflag]
  by_cases hbench : host.BenchmarkSucceeds
  · rw [if_pos hbench]
    exact iff_of_true ⟨rfl,rfl,fun core _ => rfl⟩ ⟨Or.inr hbench,Or.inr hbench⟩
  · rw [if_neg hbench,restored_iff,raised_eq_iff,hflag,Option.some_inj]
    simp only [hbench,or_false]
    exact ⟨fun hr => ⟨hr.2.1,hr.1.symm⟩,fun hr => ⟨hr.2.symm,hr.1,fun core _ => rfl⟩⟩

lemma restored_ready (h : host.Intel) (hready : host.MsrReady) (hflag : settings.noTurbo = none) :
    Restored host settings (settingsAfter host settings) ↔
      (∀ core ∈ host.cores, turboDisabled settings core = true) ∧
      (settings.GovernorKept ∨ host.cores = [] ∧ host.BenchmarkSucceeds) := by
  have hturbo : (∀ core ∈ host.cores,
      turboDisabled (settings.withMsr host.cores 0x4000850089) core = turboDisabled settings core) ↔
      ∀ core ∈ host.cores, turboDisabled settings core = true := by
    refine forall₂_congr (fun core hcore => ?_)
    rw [turboDisabled_withMsr hcore,eq_comm]
  have hgovernor : (if host.cores = [] ∧ host.BenchmarkSucceeds then settings.governor
      else settings.raised) = settings.governor ↔
      settings.GovernorKept ∨ host.cores = [] ∧ host.BenchmarkSucceeds := by
    split
    · exact iff_of_true rfl (Or.inr ‹_›)
    · rw [raised_eq_iff,or_iff_left ‹_›]
  rw [settingsAfter_ready hvm hfreq h hready hflag,restored_iff,hgovernor,← hturbo]
  exact ⟨fun hr => ⟨hr.2.2,hr.2.1⟩,fun hr => ⟨rfl,hr.2,hr.1⟩⟩

end Cases

/-- The settings are as before exactly in these cases. Elsewhere the script has ended before it set
them back, or it sets back what it has not saved. -/
theorem uarchBenchSh_restores_iff (host : Host) (settings : Settings) :
    Restored host settings (settingsAfter host settings) ↔ RestoredWhen host settings := by
  have hsame : Restored host settings settings := ⟨rfl,rfl,fun core _ => rfl⟩
  rw [RestoredWhen]
  by_cases hvm : host.inVm = true
  · rw [settingsAfter_inVm hvm]
    exact iff_of_true hsame (Or.inl hvm)
  rw [or_iff_right hvm]
  by_cases hfreq : host.cpufreq = false
  · rw [settingsAfter_of_error (prepare_unreadable hvm (by simp [hfreq]) settings)]
    exact iff_of_true hsame (Or.inl hfreq)
  rw [or_iff_right hfreq]
  rw [Bool.not_eq_false] at hfreq
  by_cases hintel : host.Intel
  · cases hflag : settings.noTurbo with
    | some flag =>
      dsimp only
      rw [restored_flag hvm hfreq hintel hflag,if_pos hintel]
    | none =>
      dsimp only
      rw [if_pos hintel]
      by_cases hready : host.MsrReady
      · rw [if_pos hready,restored_ready hvm hfreq hintel hready hflag]
      · rw [if_neg hready,settingsAfter_unready hvm hfreq hintel hready hflag,restored_raised_iff]
  · rw [restored_other hvm hfreq hintel]
    cases hflag : settings.noTurbo with
    | some flag =>
      dsimp only
      rw [if_neg hintel]
      exact and_congr_right (fun _ => ⟨fun h => h flag rfl,fun h f hf => Option.some.inj hf ▸ h⟩)
    | none =>
      dsimp only
      rw [if_neg hintel]
      exact and_iff_left (fun f hf => nomatch hf)

/-- A host with the driver of Intel on which a benchmark fails. -/
def pstateHost : Host where
  inVm := false
  vendorId := "GenuineIntel"
  cpufreq := true
  rdmsr := true
  msrModule := true
  modprobe := 0
  cores := [0,1]
  selectedTimer := "clock"
  insmod := 0
  uarchBench := 1

/-- A host without this driver, on which the benchmarks end well. -/
def msrHost : Host := { pstateHost with uarchBench := 0 }

theorem failed_benchmark_not_restored :
    ¬ Restored pstateHost ⟨some false,"powersave",fun _ => 0x850089⟩
      (settingsAfter pstateHost ⟨some false,"powersave",fun _ => 0x850089⟩) ∧
    ¬ Restored msrHost ⟨none,"powersave",fun _ => 0x850089⟩
      (settingsAfter msrHost ⟨none,"powersave",fun _ => 0x850089⟩) :=
  ⟨fun h => absurd h.governor (by decide),fun h => absurd (h.turbo 0 (by decide)) (by decide)⟩

end UarchBench.Launcher
