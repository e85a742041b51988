import Rv32i.Machine.Run

/-!
# Options

The four numbers that an emulation can be given: bytes of memory, steps of one run, entries of the
history, and bytes of memory shown in a report.

* `Options.merge` fills in a file's value wherever an option still has its default, even if the
  default was asked for;
* `Options.validate` names the first option that is out of range.
-/

namespace Rv32i

open Text

/-- The options of an emulation. -/
structure Options where
  memorySize : Nat := 1048576
  maxSteps : Nat := 1000000
  historyDepth : Nat := 16
  /-- Bytes of memory that a report shows. -/
  memoryWindow : Nat := 256
deriving DecidableEq

/-- Why options are refused. -/
inductive OptionsError
  | zeroMemory
  | unalignedMemory (size : Nat)
  | zeroSteps
  | historyTooDeep (depth : Nat)
deriving DecidableEq

namespace Options

/-- The deepest history. -/
def maxHistoryDepth : Nat :=
  65536

/-- The machine that the options describe. -/
def machineConfig (options : Options) : MachineConfig :=
  ⟨options.memorySize, options.maxSteps, options.historyDepth⟩

/-- The value of a file where the current one is still the default. -/
def orFile (current default file : Nat) : Nat :=
  if current = default then file else current

/-- The options with those of a file filled in. -/
def merge (options file : Options) : Options :=
  let default : Options := {}
  { memorySize := orFile options.memorySize default.memorySize file.memorySize
    maxSteps := orFile options.maxSteps default.maxSteps file.maxSteps
    historyDepth := orFile options.historyDepth default.historyDepth file.historyDepth
    memoryWindow := orFile options.memoryWindow default.memoryWindow file.memoryWindow }

/-- The options are within their ranges; the first one that is not is the error. -/
def validate (options : Options) : Except OptionsError Unit :=
  if options.memorySize = 0 then .error .zeroMemory
  else if options.memorySize % 4 ≠ 0 then .error (.unalignedMemory options.memorySize)
  else if options.maxSteps = 0 then .error .zeroSteps
  else if maxHistoryDepth < options.historyDepth then
    .error (.historyTooDeep options.historyDepth)
  else .ok ()

end Options

/-- The wording of an error. -/
def OptionsError.message : OptionsError → String
  | zeroMemory => "memory size must be non-zero"
  | unalignedMemory size => "memory size " ++ decimal size ++ " is not a multiple of 4"
  | zeroSteps => "max steps must be non-zero"
  | historyTooDeep depth =>
    "history depth " ++ decimal depth ++ " exceeds the maximum of " ++
      decimal Options.maxHistoryDepth

end Rv32i
