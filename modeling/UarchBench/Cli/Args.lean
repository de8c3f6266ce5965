import UarchBench.Util.Split

/-! The parser of command lines: flags are found by a character or by a word, and take their values
from the same argument or from the next ones. -/
namespace UarchBench.Args
open Util

/-- The exceptions `Help` and `ParseError`, with their texts. -/
inductive ArgsError
  | help (flag : Text)
  | parse (problem : Text)
  deriving DecidableEq, Repr

/-- How many values a flag takes. -/
structure Nargs where
  min : ℕ
  max : ℕ
  deriving DecidableEq, Repr

/-- A flag, by what it does to the state of all flags. -/
structure FlagBase (σ : Type) where
  shortFlags : List Char := []
  longFlags : List Text
  single : Bool := false
  helpFlag : Bool := false
  nargs : Nargs
  matched : σ → Bool
  setMatched : σ → σ
  parseValue : List Text → σ → Except ArgsError σ

inductive OptionType
  | longFlag
  | shortFlag
  | positional
  deriving DecidableEq, Repr

structure ArgumentParser (σ : Type) where
  children : List (FlagBase σ)
  longprefix : Text := ['-','-']
  shortprefix : Text := ['-']
  longseparator : Text := ['=']
  terminator : Text := ['-','-']
  allowJoinedShortValue : Bool := true
  allowJoinedLongValue : Bool := true
  allowSeparateShortValue : Bool := true
  allowSeparateLongValue : Bool := true

variable {σ : Type}

/-- The constructor of `ArgumentParser`, with the flags that are added to it. -/
def ArgumentParser.construct (children : List (FlagBase σ)) : ArgumentParser σ :=
  {children := children}

/-- `Match` of a flag. -/
def FlagBase.match (flag : FlagBase σ) (arg : Text) (s : σ) : Except ArgsError σ :=
  if flag.single ∧ flag.matched s then
    .error (.parse ("Flag '".toList ++ arg ++
      "' was passed multiple times, but is only allowed to be passed once".toList))
  else if flag.helpFlag then .error (.help arg)
  else .ok (flag.setMatched s)

namespace ArgumentParser
variable (p : ArgumentParser σ)

def parseOption (s : Text) : OptionType :=
  if find s p.longprefix 0 = some 0 ∧ s.length > p.longprefix.length then .longFlag
  else if find s p.shortprefix 0 = some 0 ∧ s.length > p.shortprefix.length then .shortFlag
  else .positional

/-- `Match` of the whole group for a word. -/
def findLong (arg : Text) : Option (FlagBase σ) :=
  p.children.find? (fun flag => flag.longFlags.contains arg)

/-- `Match` of the whole group for a character. -/
def findShort (arg : Char) : Option (FlagBase σ) :=
  p.children.find? (fun flag => flag.shortFlags.contains arg)

/-- The values among the next arguments. -/
def separateValues (nargs : Nargs) : ℕ → List Text → List Text
  | 0, _ => []
  | _+1, [] => []
  | max+1, value::rest =>
    if nargs.min = nargs.max ∨ p.parseOption value = .positional then
      value::separateValues nargs max rest
    else []

/-- `ParseArgsValues`. -/
def parseArgsValues (nargs : Nargs) (arg : Text) (rest : List Text) (allowSeparate allowJoined : Bool)
    (joined : Option Text) (canDiscardJoined : Bool) : Except ArgsError (List Text) :=
  let checked (values : List Text) : Except ArgsError (List Text) :=
    if values.length > nargs.max then
      .error (.parse ("Passed an argument into a non-argument flag: ".toList ++ arg))
    else if values.length < nargs.min then
      let problem : Text :=
        if nargs.min = 1 ∧ nargs.max = 1 then "' requires an argument but received none".toList
        else if nargs.min = 1 then "' requires at least one argument but received none".toList
        else (if nargs.min ≠ nargs.max then "' requires at least ".toList
            else "' requires ".toList) ++ Nat.toDigits 10 nargs.min ++
          " arguments but received ".toList ++ Nat.toDigits 10 values.length
      .error (.parse ("Flag '".toList ++ arg ++ problem))
    else .ok values
  match joined with
  | some value =>
    if allowJoined = false ∧ nargs.min ≠ 0 then
      .error (.parse ("Flag '".toList ++ arg ++
        "' was passed a joined argument, but these are disallowed".toList))
    else checked (if canDiscardJoined = false ∨ nargs.max ≠ 0 then [value] else [])
  | none =>
    if allowSeparate = false then
      if nargs.min ≠ 0 then
        .error (.parse ("Flag '".toList ++ arg ++
          "' was passed a separate argument, but these are disallowed".toList))
      else checked []
    else checked (p.separateValues nargs nargs.max rest)

/-- How many of the next arguments have become values. -/
def taken (joined : Option Text) (values : List Text) : ℕ :=
  if joined.isSome then 0 else values.length

/-- `Match`, `ParseArgsValues` and `ParseValue` of one flag. -/
def parseFlag (flag : FlagBase σ) (arg : Text) (rest : List Text) (allowSeparate allowJoined : Bool)
    (joined : Option Text) (canDiscardJoined : Bool) (s : σ) :
    Except ArgsError (σ × List Text) := do
  let s ← flag.match arg s
  let values ← p.parseArgsValues flag.nargs arg rest allowSeparate allowJoined joined
    canDiscardJoined
  return (← flag.parseValue values s,values)

/-- The word of a long flag, and what is joined to it behind a separator. -/
def splitLong (argchunk : Text) : Text × Option Text :=
  match if p.longseparator = [] then none else find argchunk p.longseparator 0 with
  | some separator =>
    (argchunk.take separator,some (argchunk.drop (separator+p.longseparator.length)))
  | none => (argchunk,none)

/-- `ParseLong`. -/
def parseLong (chunk : Text) (rest : List Text) (s : σ) : Except ArgsError (σ × ℕ) :=
  let (arg,joined) := p.splitLong (chunk.drop p.longprefix.length)
  match p.findLong arg with
  | some flag => do
    let (s,values) ← p.parseFlag flag arg rest p.allowSeparateLongValue p.allowJoinedLongValue
      joined false s
    return (s,taken joined values)
  | none => .error (.parse ("Flag could not be matched: ".toList ++ arg))

/-- The loop of `ParseShort`. -/
def parseShortFrom (rest : List Text) : List Char → σ → Except ArgsError (σ × ℕ)
  | [], s => .ok (s,0)
  | arg::value, s =>
    let joined := if value = [] then none else some value
    match p.findShort arg with
    | some flag => do
      let (s,values) ← p.parseFlag flag [arg] rest p.allowSeparateShortValue
        p.allowJoinedShortValue joined (value ≠ []) s
      if values ≠ [] then return (s,taken joined values) else parseShortFrom rest value s
    | none => .error (.parse ("Flag could not be matched: '".toList ++ arg::['\'']))

/-- `ParseShort`. -/
def parseShort (chunk : Text) (rest : List Text) (s : σ) : Except ArgsError (σ × ℕ) :=
  p.parseShortFrom rest (chunk.drop p.shortprefix.length) s

/-- The loop of `ParseArgs`. -/
def parseFrom (terminated : Bool) (args : List Text) (s : σ) : Except ArgsError σ :=
  match args with
  | [] => .ok s
  | chunk::rest =>
    if terminated = false ∧ chunk = p.terminator then parseFrom true rest s
    else if terminated = false ∧ p.parseOption chunk = .longFlag then do
      let (s,taken) ← p.parseLong chunk rest s
      parseFrom terminated (rest.drop taken) s
    else if terminated = false ∧ p.parseOption chunk = .shortFlag then do
      let (s,taken) ← p.parseShort chunk rest s
      parseFrom terminated (rest.drop taken) s
    else
      .error (.parse ("Passed in argument, but no positional arguments were ready ".toList ++
        "to receive it: ".toList ++ chunk))
  termination_by args.length
  decreasing_by all_goals simp only [List.length_cons,List.length_drop]; omega

/-- `ParseArgs`: `s` is the state in which no flag has been matched. -/
def parseArgs (args : List Text) (s : σ) : Except ArgsError σ := p.parseFrom false args s

end ArgumentParser
end UarchBench.Args
