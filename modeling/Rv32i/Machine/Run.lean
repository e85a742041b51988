import Rv32i.Assembly.Decode
import Rv32i.Assembly.Program
import Rv32i.Machine.Effect
import Rv32i.Machine.History

/-!
# The machine

A machine is a hart with a history and a bound on the steps of one run. It fetches a record of the
program at the program counter, decodes and executes it.

* `Machine.step` makes one attempt. A halted machine stays put; a program counter outside the
  program halts the machine without executing anything, and so does an instruction that leads
  there.
* `Machine.run` steps until the machine has halted, fails, or has executed as many instructions
  as it may. Whatever a failed run changed stays.

Both return the machine beside the result, since an error does not undo the steps before it.
-/

namespace Rv32i

open Text

/-! ## 1. Errors and results -/

/-- Why a machine stops without having halted. -/
inductive MachineError
  /-- The record at the program counter is no instruction. -/
  | decode (error : DecodeError)
  /-- The instruction on a source line faults. -/
  | fault (line : Nat) (cause : Fault)
  /-- The run executed as many instructions as it may. -/
  | stepLimit (maxSteps : Nat)
deriving DecidableEq

namespace MachineError

/-- The source line of the failing instruction, if there is one. -/
def line? : MachineError → Option Nat
  | decode error => some error.line
  | fault line _ => some line
  | stepLimit _ => none

/-- The wording of an error. -/
def message : MachineError → String
  | decode error => error.message
  | fault line cause => "line " ++ decimal line ++ ": " ++ cause.message
  | stepLimit maxSteps => "execution did not halt within " ++ decimal maxSteps ++ " steps"

end MachineError

/-- What a step without an error did. -/
inductive StepOutcome
  /-- One instruction was executed. -/
  | executed
  /-- Nothing was executed: the machine has halted. -/
  | idle
deriving DecidableEq

/-! ## 2. Machines -/

/-- How a machine is built. -/
structure MachineConfig where
  /-- Bytes of memory. -/
  memorySize : Nat := 1048576
  /-- Instructions that one run may execute. -/
  maxSteps : Nat := 1000000
  /-- Entries of the history. -/
  historyDepth : Nat := 16
deriving DecidableEq

/-- A hart with a history and a step limit. -/
structure Machine where
  hart : Hart
  history : History
  maxSteps : Nat
deriving DecidableEq

namespace Machine

/-- The machine that starts from a hart, with no history. -/
def withHart (config : MachineConfig) (hart : Hart) : Machine :=
  ⟨hart, .empty config.historyDepth, config.maxSteps⟩

/-- The zeroed machine. -/
def new (config : MachineConfig) : Machine :=
  withHart config (.zero config.memorySize)

/-- The machine zeroed again, with no history. -/
def reset (m : Machine) : Machine :=
  { m with hart := m.hart.reset, history := m.history.clear }

/-- The machine, halted. -/
def halt (m : Machine) : Machine :=
  { m with hart := m.hart.halt }

/-- The machine after an effect. It halts if the program counter has left the program. -/
def apply (program : Program) (m : Machine) (effect : Effect) : Machine :=
  let hart := m.hart.apply effect
  { m with hart := if program.size ≤ hart.pc.toNat then hart.halt else hart }

/-! ## 3. Steps -/

/-- The machine with an attempt at a record added to its history. -/
def note (m : Machine) (record : Record) : Machine :=
  { m with history := m.history.push ⟨m.hart.pc, record.line, record.source⟩ }

/-- One attempt to execute the instruction at the program counter. -/
def step (program : Program) (m : Machine) : Except MachineError StepOutcome × Machine :=
  if m.hart.halted then (.ok .idle, m)
  else match program.record? m.hart.pc.toNat with
    | none => (.ok .idle, m.halt)
    | some record =>
      match record.decode with
      | .error error => (.error (.decode error), m)
      | .ok instruction =>
        let m := m.note record
        match instruction.effect m.hart with
        | .error fault => (.error (.fault record.line fault), m)
        | .ok effect => (.ok .executed, m.apply program effect)

/-- Steps until the machine has halted, while the budget lasts. The number of instructions
    executed counts those of before. -/
def runWithin (program : Program) (executed : Nat) :
    Nat → Machine → Except MachineError Nat × Machine
  | 0, m => if m.hart.halted then (.ok executed, m) else (.error (.stepLimit m.maxSteps), m)
  | budget + 1, m =>
    if m.hart.halted then (.ok executed, m)
    else match m.step program with
      | (.ok .executed, m) => runWithin program (executed + 1) budget m
      | (.ok .idle, m) => (.ok executed, m)
      | (.error error, m) => (.error error, m)

/-- Steps until the machine has halted; the number of instructions executed. -/
def run (program : Program) (m : Machine) : Except MachineError Nat × Machine :=
  m.runWithin program 0 m.maxSteps

end Machine

end Rv32i
