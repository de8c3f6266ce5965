import UarchBench.Base.Extraction
import UarchBench.Cli.Grammar

/-! The flags of the program and their values. -/
namespace UarchBench.Cli
open Args Base Util

/-- A flag with a value: whether it has been used, and the value, which starts as the default. -/
structure ValueFlag (α : Type) where
  matched : Bool := false
  value : α
  deriving DecidableEq, Repr

def defaultPrecision : UInt32 := 2

/-- The flags that `Context` has. -/
structure Settings where
  help : Bool := false
  argClockoverhead : Bool := false
  argListbenches : Bool := false
  argListtimers : Bool := false
  argVerbose : Bool := false
  argTimer : ValueFlag Text := { value := [] }
  argDefaultPrecision : ValueFlag UInt32 := { value := defaultPrecision }
  argTestName : ValueFlag Text := { value := [] }
  argTestTag : ValueFlag Text := { value := [] }
  argListevents : Bool := false
  argExtraevents : ValueFlag Text := { value := [] }
  argPincpu : ValueFlag Int32 := { value := 0 }
  argInternalDumpTimer : Bool := false
  deriving DecidableEq, Repr

/-- `ValueReader`: the name of the flag, the text and the value so far. -/
abbrev ValueReader (α : Type) := Text → Text → α → Except ArgsError α

def readString : ValueReader Text := fun _ value _ => .ok value

/-- The reader that uses formatted input; what it leaves of the text is an error. -/
def readNumber {α : Type} (convert : Extracted → α) : ValueReader α := fun name value destination =>
  match extract value with
  | none => .ok destination
  | some extracted =>
    if extracted.rest = [] then .ok (convert extracted)
    else .error (.parse ("Argument '".toList ++ name ++ "' received invalid value type '".toList ++
      value ++ ['\'']))

/-- `Flag`. -/
def switch (longFlag : String) (matched : Settings → Bool) (setMatched : Settings → Settings) :
    FlagBase Settings where
  longFlags := [longFlag.toList]
  nargs := ⟨0,0⟩
  matched := matched
  setMatched := setMatched
  parseValue _ s := .ok s

/-- `ValueFlag`, at a field of the settings. -/
def valueFlag {α : Type} (name : String) (shortFlags : List Char) (longFlag : String)
    (read : ValueReader α) (get : Settings → ValueFlag α)
    (set : ValueFlag α → Settings → Settings) : FlagBase Settings where
  shortFlags := shortFlags
  longFlags := [longFlag.toList]
  nargs := ⟨1,1⟩
  matched s := (get s).matched
  setMatched s := set { get s with matched := true } s
  parseValue values s := match values with
    | [] => .ok s
    | value::_ => (read name.toList value (get s).value).map
        (fun value => set { get s with value := value } s)

def help : FlagBase Settings where
  shortFlags := ['h']
  longFlags := ["help".toList]
  helpFlag := true
  nargs := ⟨0,0⟩
  matched s := s.help
  setMatched s := { s with help := true }
  parseValue _ s := .ok s

def argClockoverhead : FlagBase Settings :=
  switch "clock-overhead" (·.argClockoverhead) ({ · with argClockoverhead := true })
def argListbenches : FlagBase Settings :=
  switch "list" (·.argListbenches) ({ · with argListbenches := true })
def argListtimers : FlagBase Settings :=
  switch "list-timers" (·.argListtimers) ({ · with argListtimers := true })
def argVerbose : FlagBase Settings :=
  switch "verbose" (·.argVerbose) ({ · with argVerbose := true })
def argTimer : FlagBase Settings :=
  valueFlag "TIMER-NAME" [] "timer" readString (·.argTimer) (fun f s => { s with argTimer := f })
def argDefaultPrecision : FlagBase Settings :=
  valueFlag "PRECISION" [] "precision" (readNumber Extracted.toUInt32) (·.argDefaultPrecision)
    (fun f s => { s with argDefaultPrecision := f })
def argTestName : FlagBase Settings :=
  valueFlag "PATTERN" [] "test-name" readString (·.argTestName)
    (fun f s => { s with argTestName := f })
def argTestTag : FlagBase Settings :=
  valueFlag "PATTERN" [] "test-tag" readString (·.argTestTag)
    (fun f s => { s with argTestTag := f })
def argListevents : FlagBase Settings :=
  switch "list-events" (·.argListevents) ({ · with argListevents := true })
def argExtraevents : FlagBase Settings :=
  valueFlag "extra-events" [] "extra-events" readString (·.argExtraevents)
    (fun f s => { s with argExtraevents := f })
def argPincpu : FlagBase Settings :=
  valueFlag "pinned-cpu" ['c'] "pinned-cpu" (readNumber Extracted.toInt32) (·.argPincpu)
    (fun f s => { s with argPincpu := f })
def argInternalDumpTimer : FlagBase Settings :=
  switch "internal-dump-timer" (·.argInternalDumpTimer)
    ({ · with argInternalDumpTimer := true })

def flags : List (FlagBase Settings) :=
  [help,argClockoverhead,argListbenches,argListtimers,argVerbose,argTimer,argDefaultPrecision,
    argTestName,argTestTag,argListevents,argExtraevents,argPincpu,argInternalDumpTimer]

def parser : ArgumentParser Settings := .construct flags

/-- The command line of `main`, without the name of the program. -/
def parseCli (args : List Text) : Except ArgsError Settings := parser.parseArgs args {}

lemma plain_flags : Plain flags := by
  simp only [Plain,flags,List.forall_mem_cons]
  exact ⟨Or.inl rfl,Or.inl rfl,Or.inl rfl,Or.inl rfl,Or.inl rfl,Or.inr rfl,Or.inr rfl,Or.inr rfl,
    Or.inr rfl,Or.inl rfl,Or.inr rfl,Or.inr rfl,Or.inl rfl,by simp⟩

end UarchBench.Cli
