import Rv32i.Machine.Run
import Rv32i.Session.Snapshot

/-!
# Sessions

A session owns a machine that lives from one request to the next. A request runs a whole source
from the zeroed state, executes one instruction, or zeroes the state. A request that fails keeps
what it changed before the error.

* `Session.run` parses a source and runs it;
* `Session.step` executes one instruction, from a snapshot if one is given and otherwise from the
  session's own state. Instructions in the snapshot are used instead of the source, and the
  snapshot that comes back carries the program for the next step;
* `Session.reset` zeroes the state.
-/

namespace Rv32i

/-- Why a request fails. -/
inductive SessionError
  | parse (error : ParseError)
  | machine (error : MachineError)
  | snapshot (error : SnapshotError)
deriving DecidableEq

namespace SessionError

/-- The source line of an error, if it has one. -/
def line? : SessionError → Option Nat
  | parse error => some error.line
  | machine error => error.line?
  | snapshot _ => none

/-- The wording of an error. -/
def message : SessionError → String
  | parse error => error.message
  | machine error => error.message
  | snapshot error => error.message

end SessionError

/-- What a run or a step comes back with. -/
structure RunOutput where
  snapshot : Snapshot
  /-- Instructions executed by the request. -/
  steps : Nat
deriving DecidableEq

/-- A machine that lives from one request to the next. -/
structure Session where
  config : MachineConfig
  machine : Machine
deriving DecidableEq

namespace Session

/-- The session with a zeroed machine. -/
def new (config : MachineConfig) : Session :=
  ⟨config, .new config⟩

/-- Parses a source and executes it from the zeroed state until it halts. -/
def run (session : Session) (source : String) : Except SessionError RunOutput × Session :=
  match Program.parse source with
  | .error error => (.error (.parse error), session)
  | .ok program =>
    match session.machine.reset.run program with
    | (.error error, machine) => (.error (.machine error), { session with machine })
    | (.ok steps, machine) => (.ok ⟨.ofHart machine.hart, steps⟩, { session with machine })

/-- The program of a step: the one that the snapshot carries, or that of the source. -/
def programOf (source : String) (snapshot : Option Snapshot) : Except ParseError Program :=
  match snapshot.bind (·.instructions) with
  | some records => .ok (.ofRecords records)
  | none => Program.parse source

/-- The machine that a step starts from. -/
def startOf (session : Session) : Option Snapshot → Except SnapshotError Machine
  | none => .ok session.machine
  | some snapshot =>
    (snapshot.restore session.config.memorySize).map (Machine.withHart session.config)

/-- Executes one instruction. -/
def step (session : Session) (source : String) (snapshot : Option Snapshot) :
    Except SessionError RunOutput × Session :=
  match programOf source snapshot with
  | .error error => (.error (.parse error), session)
  | .ok program =>
    match session.startOf snapshot with
    | .error error => (.error (.snapshot error), session)
    | .ok machine =>
      match machine.step program with
      | (.error error, machine) => (.error (.machine error), { session with machine })
      | (.ok outcome, machine) =>
        let steps := match outcome with
          | .executed => 1
          | .idle => 0
        (.ok ⟨(Snapshot.ofHart machine.hart).withInstructions program.records, steps⟩,
          { session with machine })

/-- Zeroes the state of the session. -/
def reset (session : Session) : Snapshot × Session :=
  let machine := session.machine.reset
  (.ofHart machine.hart, { session with machine })

end Session

end Rv32i
