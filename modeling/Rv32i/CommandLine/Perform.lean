import Rv32i.CommandLine.Arguments
import Rv32i.Files.ReadError
import Rv32i.Json.Printer
import Rv32i.Json.Reader
import Rv32i.Options.File
import Rv32i.Report.StateReport
import Rv32i.Session.Wire

/-!
# Commands

What each command does, as a function of the files it reads: an `Outcome` is what goes to the two
output streams, and the exit code. Files are read by a given reader in a given monad, so commands
can be reasoned about over any set of files; the order of reading is that of the program.

* `run` prints the final state, `reset` the zeroed one;
* `step` executes instructions one by one, each from the snapshot of the one before, until the hart
  has halted, and prints the last snapshot with the number of all steps;
* `check` lists instructions and labels, and stops at the first record that does not decode.

The options file is read first, then the source, then the snapshot.
-/

namespace Rv32i

open Text

/-! ## 1. Outcomes and errors -/

/-- What a command leaves behind. -/
structure Outcome where
  code : Nat
  stdout : String
  stderr : String
deriving DecidableEq

/-- Why a command fails. -/
inductive CommandError
  | unreadableConfig (file : String) (error : ReadError)
  | invalidConfig (file : String)
  | options (error : OptionsError)
  | unreadable (file : String) (error : ReadError)
  | invalidSnapshot (file : String)
  | session (file : String) (error : SessionError)
  | decode (file : String) (error : DecodeError)
deriving DecidableEq

/-- The wording of an error with its cause: a refused access is named again. -/
def SessionError.messageWithCause (e : SessionError) : String :=
  match e with
  | .machine (.fault _ (.access fault)) => e.message ++ ": " ++ fault.message
  | _ => e.message

/-- The wording of an error. -/
def CommandError.message : CommandError → String
  | unreadableConfig file error =>
    "Failed to read config file " ++ file ++ ": " ++ error.message
  | invalidConfig file => "Invalid config file " ++ file
  | options error => error.message
  | unreadable file error => "Failed to read " ++ file ++ ": " ++ error.message
  | invalidSnapshot file => "Invalid snapshot " ++ file
  | session file error => file ++ ": " ++ error.messageWithCause
  | decode file error => file ++ ": " ++ error.message

namespace Outcome

/-- Success with an output. -/
def success (stdout : String) : Outcome :=
  ⟨0, stdout, ""⟩

/-- Failure with the output printed before. -/
def failure (styled : Bool) (stdout : String) (error : CommandError) : Outcome :=
  ⟨1, stdout, Style.bold.paint styled (Style.red.paint styled "error:") ++ " " ++ error.message ++
    "\n"⟩

/-- The outcome of a command line that asks for nothing known. -/
def usage : Outcome :=
  ⟨2, "", "error: unknown command line\n"⟩

end Outcome

/-! ## 2. Commands on a session -/

/-- Executes up to `count` more instructions, each from the snapshot of the one before, and stops
    once the hart has halted. The steps count those of before. -/
def stepRepeatedly (source : String) (session : Session) (output : RunOutput) :
    Nat → Except SessionError RunOutput
  | 0 => .ok output
  | count + 1 =>
    if output.snapshot.halted then .ok output
    else match session.step source (some output.snapshot) with
      | (.error error, _) => .error error
      | (.ok next, session) =>
        stepRepeatedly source session ⟨next.snapshot, output.steps + next.steps⟩ count

/-- Executes `count` instructions, at least one. -/
def stepMany (session : Session) (source : String) (snapshot : Option Snapshot) (count : Nat) :
    Except SessionError RunOutput :=
  match session.step source snapshot with
  | (.error error, _) => .error error
  | (.ok output, session) => stepRepeatedly source session output (count - 1)

/-- The line of a listing for a record and its instruction. -/
def checkLine (styled : Bool) (record : Record) (instruction : Instruction) : String :=
  padLeft 4 ' ' (decimal record.index) ++ "  " ++ padRight 24 instruction.listing ++ " " ++
    Style.dimmed.paint styled record.source ++ "\n"

/-- The lines of records up to the first that does not decode, and its error. -/
def checkRecords (styled : Bool) (printed : List String) :
    List Record → List String × Option DecodeError
  | [] => (printed.reverse, none)
  | record :: records =>
    match record.decode with
    | .ok instruction =>
      checkRecords styled (checkLine styled record instruction :: printed) records
    | .error error => (printed.reverse, some error)

/-- The order of labels in a listing: by slot, then by name. -/
def labelLe (a b : LabelDef) : Bool :=
  a.slot < b.slot || (a.slot = b.slot && a.name ≤ b.name)

/-- The lines of labels. -/
def labelLines (styled : Bool) (labels : LabelTable) : List String :=
  (labels.defs.mergeSort labelLe).map fun d =>
    Style.cyan.paint styled "label" ++ " " ++ d.name ++ " -> " ++ decimal d.slot ++ "\n"

/-- The value, as it is printed. -/
def printed (value : Json) : String :=
  value.pretty ++ "\n"

/-! ## 3. Commands on files -/

section

variable {m : Type → Type} [Monad m] (read : String → m (Except ReadError String))

/-- The options with those of the options file filled in, checked. -/
def resolve (options : Options) (config : Option String) : ExceptT CommandError m Options := do
  let options ← match config with
    | none => pure options
    | some file =>
      match ← read file with
      | .error error => throw (.unreadableConfig file error)
      | .ok text =>
        match OptionsFile.read? text with
        | some fromFile => pure (options.merge fromFile)
        | none => throw (.invalidConfig file)
  match options.validate with
  | .ok () => return options
  | .error error => throw (.options error)

/-- The text of a file. -/
def readSource (file : String) : ExceptT CommandError m String := do
  match ← read file with
  | .ok text => return text
  | .error error => throw (.unreadable file error)

/-- The snapshot in a file. -/
def readSnapshot (file : String) : ExceptT CommandError m Snapshot := do
  let text ← readSource read file
  match (Json.read? text).bind Snapshot.ofJson? with
  | some snapshot => return snapshot
  | none => throw (.invalidSnapshot file)

/-- What a command prints, and the error that ends it early, if one does. -/
def Command.perform (styled : Bool) (options : Options) :
    Command → ExceptT CommandError m (String × Option CommandError)
  | .run file json history => do
    let source ← readSource read file
    match (Session.new options.machineConfig).run source with
    | (.error error, _) => throw (.session file error)
    | (.ok output, session) =>
      if json then return (printed output.toJson, none)
      else
        let report : StateReport :=
          { snapshot := output.snapshot, window := options.memoryWindow
            history := if history then some session.machine.history else none }
        return (report.render styled ++ Style.bold.paint styled "steps:" ++ " " ++
          decimal output.steps ++ "\n", none)
  | .step file state count => do
    let source ← readSource read file
    let snapshot ← match state with
      | some stateFile => some <$> readSnapshot read stateFile
      | none => pure none
    match stepMany (Session.new options.machineConfig) source snapshot count with
    | .error error => throw (.session file error)
    | .ok output => return (printed output.toJson, none)
  | .reset => return (printed ((Session.new options.machineConfig).reset.1).toJson, none)
  | .check file => do
    let source ← readSource read file
    match Program.parse source with
    | .error error => throw (.session file (.parse error))
    | .ok program =>
      match checkRecords styled [] program.records.toList with
      | (lines, some error) => return (String.join lines, some (.decode file error))
      | (lines, none) => return (String.join (lines ++ labelLines styled program.labels), none)

/-- What an invocation leaves behind. -/
def Invocation.perform (styled : Bool) (invocation : Invocation) : m Outcome := do
  let result ← ExceptT.run do
    let options ← resolve read invocation.options invocation.config
    invocation.command.perform read styled options
  match result with
  | .ok (stdout, none) => return .success stdout
  | .ok (stdout, some error) => return .failure styled stdout error
  | .error error => return .failure styled "" error

/-- What a command line leaves behind. -/
def performArgs (styled : Bool) (env : String → Option String) (args : List String) : m Outcome :=
  match Invocation.ofArgs? env args with
  | some invocation => invocation.perform read styled
  | none => pure .usage

end

end Rv32i
