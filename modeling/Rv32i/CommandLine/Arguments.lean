import Rv32i.Options.Basic

/-!
# Arguments

What a command line asks for. The options of the emulation come first, then a command with its
own switches, options and operands; an option's value follows it, or stands behind `=`. Options of
the log may stand on either side of the command and change nothing here.

* `scan` sorts one side of the command into options, switches and operands;
* `Invocation.ofArgs?` reads both sides. An emulation option that is not given is taken from the
  environment, and failing that from the defaults.

A command line that asks for nothing known is refused: an unknown, repeated or incomplete option, a
value that is no number below `2 ^ 64`, a missing or surplus operand, an empty file name.
-/

namespace Rv32i

open Text

/-! ## 1. Sorting arguments -/

/-- The arguments on one side of the command. -/
structure Scan where
  /-- Options with their values. -/
  options : List (String × String) := []
  switches : List String := []
  operands : List String := []
  /-- The command and what follows it. -/
  rest : List String := []

namespace Scan

/-- An argument that is no operand. A single hyphen is one. -/
def isFlag (arg : String) : Bool :=
  arg.startsWith "-" && arg ≠ "-"

/-- The name of a flag and the value behind `=`, if there is one. -/
def splitFlag (arg : String) : String × Option String :=
  let chars := arg.toList
  match chars.dropWhile (· ≠ '=') with
  | [] => (arg, none)
  | _ :: value => (String.ofList (chars.takeWhile (· ≠ '=')), some (String.ofList value))

/-- Sorts arguments with the given options and switches. Ahead of the command, the first operand
    is the command. -/
def go (options switches : List String) (ahead : Bool) (found : Scan) :
    List String → Option Scan
  | [] => some found
  | arg :: args =>
    if arg = "--" then
      if ahead then none else some { found with operands := found.operands ++ args }
    else if isFlag arg then
      let (name, value) := splitFlag arg
      if options.contains name then
        match value, args with
        | some value, args =>
          go options switches ahead { found with options := (name, value) :: found.options } args
        | none, value :: args =>
          if isFlag value then none
          else
            go options switches ahead { found with options := (name, value) :: found.options } args
        | none, [] => none
      else if switches.contains name && value.isNone then
        go options switches ahead { found with switches := name :: found.switches } args
      else none
    else if ahead then some { found with rest := arg :: args }
    else go options switches ahead { found with operands := found.operands ++ [arg] } args

/-- No option and no switch occurs twice. -/
def isSimple (found : Scan) : Bool :=
  (found.options.map (·.1)).eraseDups.length = found.options.length &&
    found.switches.eraseDups.length = found.switches.length

/-- The value of an option. -/
def value? (found : Scan) (name : String) : Option String :=
  found.options.lookup name

/-- The switch is given. -/
def has (found : Scan) (name : String) : Bool :=
  found.switches.contains name

end Scan

/-- The arguments, sorted, if every option and switch is known and given once. -/
def scan (options switches : List String) (ahead : Bool) (args : List String) : Option Scan :=
  (Scan.go ("--log-level" :: options) ("--log-json" :: switches) ahead {} args).filter
    (·.isSimple)

/-! ## 2. Commands -/

/-- What the program is asked to do. -/
inductive Command
  /-- Run a source file and print the state, as a value or as a report. -/
  | run (file : String) (json history : Bool)
  /-- Execute some instructions of a source file, from a snapshot file if one is given. -/
  | step (file : String) (state : Option String) (count : Nat)
  /-- Print the zeroed state. -/
  | reset
  /-- List the instructions and labels of a source file. -/
  | check (file : String)
deriving DecidableEq

/-- A command with the options of the emulation. -/
structure Invocation where
  options : Options
  /-- The options file. -/
  config : Option String
  command : Command
deriving DecidableEq

/-- A number as an argument: a plus sign may stand in front. -/
def number? (text : String) : Option Nat :=
  let digits := match text.toList with
    | '+' :: digits => digits
    | digits => digits
  (natOfDigits? 10 digits).filter (· < 2 ^ 64)

/-- A file name, which is not empty. -/
def fileName? (text : String) : Option String :=
  if text.isEmpty then none else some text

namespace Command

/-- The only operand, which is a file name. -/
def soleFile? (found : Scan) : Option String :=
  match found.operands with
  | [file] => fileName? file
  | _ => none

/-- The command that the arguments behind the options ask for. -/
def ofArgs? : List String → Option Command
  | "run" :: args => do
    let found ← scan [] ["--json", "--history"] false args
    return .run (← soleFile? found) (found.has "--json") (found.has "--history")
  | "step" :: args => do
    let found ← scan ["--state", "--count"] [] false args
    let state ← match found.value? "--state" with
      | some file => (fileName? file).map some
      | none => some none
    let count ← match found.value? "--count" with
      | some text => number? text
      | none => some 1
    return .step (← soleFile? found) state count
  | "reset" :: args => do
    let found ← scan [] [] false args
    if found.operands.isEmpty then return .reset else none
  | "check" :: args => do
    let found ← scan [] [] false args
    return .check (← soleFile? found)
  | _ => none

end Command

namespace Invocation

/-- An option of the emulation: from the arguments, else from the environment, else the default. -/
def setting? (found : Scan) (env : String → Option String) (flag : String)
    (envName : Option String) (default : Nat) : Option Nat :=
  match found.value? flag with
  | some text => number? text
  | none =>
    match envName.bind env with
    | some text => number? text
    | none => some default

/-- What the arguments ask for. -/
def ofArgs? (env : String → Option String) (args : List String) : Option Invocation := do
  let names := ["--memory-size", "--max-steps", "--history-depth", "--memory-window", "--config"]
  let found ← scan names [] true args
  let command ← Command.ofArgs? found.rest
  let default : Options := {}
  let memorySize ← setting? found env "--memory-size" (some "RVSIM_MEMORY_SIZE") default.memorySize
  let maxSteps ← setting? found env "--max-steps" (some "RVSIM_MAX_STEPS") default.maxSteps
  let historyDepth ←
    setting? found env "--history-depth" (some "RVSIM_HISTORY_DEPTH") default.historyDepth
  let memoryWindow ← setting? found env "--memory-window" none default.memoryWindow
  let config ← match found.value? "--config" with
    | some file => (fileName? file).map some
    | none => some none
  return ⟨⟨memorySize, maxSteps, historyDepth, memoryWindow⟩, config, command⟩

end Invocation

end Rv32i
