import Rv32i.Proofs.Checked.Machine
import Rv32i.Proofs.Checked.Program
import Rv32i.Proofs.Session.Invariant

/-!
# Sessions never abort

Requests come with any source and any snapshot, and with records that no assembler has made. The
main statement, `requests_never_abort`, says that all of them are answered.

* `Session.answer` is what a request comes back with, value or error;
* `answer_eq`: one request is answered, if the limit on steps is a number of 64 bits and its source
  finds room in memory (`Session.Request.Allocates`).
-/

namespace Rv32i

/-! ## 1. Answers -/

namespace Session

/-- What a request comes back with. -/
inductive Answer
  | output (result : Except SessionError RunOutput)
  | state (snapshot : Snapshot)

/-- The error of an answer, if it is one. -/
def Answer.error? : Answer → Option SessionError
  | output (.error error) => some error
  | output (.ok _) | state _ => none

/-- The answer to a request, and the session after it. -/
def answer (session : Session) : Request → Answer × Session
  | .run source => ((session.run source).map .output id)
  | .step source snapshot => ((session.step source snapshot).map .output id)
  | .reset => (session.reset.map .state id)

/-- The answers to requests, one after the other, and the session after them. -/
def answerAll (session : Session) : List Request → List Answer × Session
  | [] => ([], session)
  | request :: requests =>
    let (answer, session) := session.answer request
    let (answers, session) := session.answerAll requests
    (answer :: answers, session)

/-- The session after a request is the one that serves it. -/
theorem answer_snd (session : Session) (request : Request) :
    (session.answer request).2 = session.serve request := by
  cases request <;> rfl

/-- The source that a request has parsed finds room in memory. A step from a snapshot that carries
    instructions parses none. -/
def Request.Allocates : Request → Prop
  | .run source => Checked.Allocates source
  | .step source snapshot => snapshot.bind (·.instructions) = none → Checked.Allocates source
  | .reset => True

end Session

namespace Checked

open Session (Answer Request)

/-! ## 2. Requests with aborts -/

/-- Parses a source and executes it from the zeroed state until it halts. -/
def runSource (session : Session) (source : String) :
    Except Abort (Except SessionError RunOutput × Session) := do
  match ← (parse source).run with
  | .error error => return (.error (.parse error), session)
  | .ok program =>
    match ← run program session.machine.reset with
    | (.error error, machine) => return (.error (.machine error), { session with machine })
    | (.ok steps, machine) => return (.ok ⟨.ofHart machine.hart, steps⟩, { session with machine })

/-- The program of a step. -/
def programOf (source : String) (snapshot : Option Snapshot) : Guarded ParseError Program :=
  match snapshot.bind (·.instructions) with
  | some records => return .ofRecords records
  | none => parse source

/-- The machine that a step starts from. -/
def startOf (session : Session) : Option Snapshot → Guarded SnapshotError Machine
  | none => return session.machine
  | some snapshot => do
    return .withHart session.config (← restore snapshot session.config.memorySize)

/-- Executes one instruction. -/
def stepSource (session : Session) (source : String) (snapshot : Option Snapshot) :
    Except Abort (Except SessionError RunOutput × Session) := do
  match ← (programOf source snapshot).run with
  | .error error => return (.error (.parse error), session)
  | .ok program =>
    match ← (startOf session snapshot).run with
    | .error error => return (.error (.snapshot error), session)
    | .ok machine =>
      match ← step program machine with
      | (.error error, machine) => return (.error (.machine error), { session with machine })
      | (.ok outcome, machine) =>
        let steps := match outcome with
          | .executed => 1
          | .idle => 0
        return (.ok ⟨(Snapshot.ofHart machine.hart).withInstructions program.records, steps⟩,
          { session with machine })

/-- The answer to a request, and the session after it. -/
def answer (session : Session) : Request → Except Abort (Answer × Session)
  | .run source => do return (← runSource session source).map .output id
  | .step source snapshot => do return (← stepSource session source snapshot).map .output id
  | .reset => return session.reset.map .state id

/-- The answers to requests, one after the other, and the session after them. -/
def answerAll (session : Session) : List Request → Except Abort (List Answer × Session)
  | [] => return ([], session)
  | request :: requests => do
    let (answer, session) ← answer session request
    let (answers, session) ← answerAll session requests
    return (answer :: answers, session)

/-! ## 3. Every request is answered -/

theorem runSource_eq {session : Session} {source : String}
    (limit : session.machine.maxSteps < 2 ^ 64) (allocates : Allocates source) :
    runSource session source = .ok (session.run source) := by
  unfold runSource Session.run
  simp only [parse_eq allocates, run_done, ok_bind]
  cases Program.parse source with
  | error error => rfl
  | ok program =>
    have ran : run program session.machine.reset = _ := run_eq program limit
    simp only [ran, ok_bind]
    rcases session.machine.reset.run program with ⟨error | steps, machine⟩ <;> rfl

theorem programOf_eq {source : String} {snapshot : Option Snapshot}
    (allocates : snapshot.bind (·.instructions) = none → Allocates source) :
    programOf source snapshot = done (Session.programOf source snapshot) := by
  unfold programOf Session.programOf
  cases carried : snapshot.bind (·.instructions) with
  | some records => rfl
  | none => exact parse_eq (allocates carried)

theorem startOf_eq (session : Session) (snapshot : Option Snapshot) :
    startOf session snapshot = done (session.startOf snapshot) := by
  cases snapshot with
  | none => rfl
  | some snapshot =>
    rw [startOf, restore_eq, Session.startOf]
    cases snapshot.restore session.config.memorySize <;> rfl

theorem stepSource_eq {session : Session} {source : String} {snapshot : Option Snapshot}
    (allocates : snapshot.bind (·.instructions) = none → Allocates source) :
    stepSource session source snapshot = .ok (session.step source snapshot) := by
  unfold stepSource Session.step
  simp only [programOf_eq allocates, startOf_eq, run_done, ok_bind]
  cases Session.programOf source snapshot with
  | error error => rfl
  | ok program =>
    cases session.startOf snapshot with
    | error error => rfl
    | ok machine =>
      simp only [step_eq, ok_bind]
      rcases machine.step program with ⟨error | outcome, machine⟩ <;> rfl

/-- **A request is answered.** -/
theorem answer_eq {session : Session} {request : Request}
    (limit : session.machine.maxSteps < 2 ^ 64) (allocates : request.Allocates) :
    answer session request = .ok (session.answer request) := by
  cases request with
  | run source =>
    rw [answer, runSource_eq limit allocates]
    rfl
  | step source snapshot =>
    rw [answer, stepSource_eq allocates]
    rfl
  | reset => rfl

theorem answerAll_eq {config : MachineConfig} (limit : config.maxSteps < 2 ^ 64)
    {session : Session} (sound : session.Sound config) {requests : List Request}
    (allocates : ∀ request ∈ requests, request.Allocates) :
    answerAll session requests = .ok (session.answerAll requests) := by
  induction requests generalizing session with
  | nil => rfl
  | cons request requests ih =>
    have here : answer session request = .ok (session.answer request) :=
      answer_eq (sound.machine.maxSteps ▸ limit) (allocates request List.mem_cons_self)
    have after : (session.answer request).2.Sound config :=
      session.answer_snd request ▸ sound.serve request
    have later := ih after fun r mem => allocates r (List.mem_cons_of_mem _ mem)
    rw [answerAll, here, ok_bind]
    simp only [later, ok_bind]
    rfl

/-- **Whatever is asked of a session, it answers**: for every configuration and every sequence of
    runs, steps and resets, with any sources and with snapshots from anywhere, no register or memory
    index lies outside its array, no machine integer overflows and no text is cut inside a
    character. The answers are those of the session, and so is its state after them. The limit on
    steps has to be a number of 64 bits, and the sources and their lines have to find room in
    memory. -/
theorem requests_never_abort (config : MachineConfig) (limit : config.maxSteps < 2 ^ 64)
    (requests : List Request) (allocates : ∀ request ∈ requests, request.Allocates) :
    answerAll (.new config) requests = .ok ((Session.new config).answerAll requests) :=
  answerAll_eq limit (Session.sound_new config) allocates

/-- Registers that are none, an address past every memory, too few registers, and a loop. -/
theorem requests_never_abort_foreign :
    let config : MachineConfig := { memorySize := 16, maxSteps := 3 }
    let add : Record :=
      { opcode := .add, format := .r, index := 0, line := 1, source := "", rd := some 1,
        rs1 := some 32, rs2 := some 255 }
    let load : Record :=
      { opcode := .lb, format := .il, index := 9, line := 2, source := "", rd := some 1,
        rs1 := some 2, imm := some 0 }
    let wild (record : Record) : Snapshot :=
      { registers := List.replicate 32 (-1), memory := [⟨15, 1⟩], pc := 0, halted := false,
        instructions := some #[record] }
    let requests : List Request :=
      [.step "" (some (wild add)), .step "" (some (wild load)),
       .step "" (some { wild add with registers := [] }), .run "on: jal x0, on"]
    ∃ answers session, answerAll (.new config) requests = .ok (answers, session) ∧
      answers.map Answer.error? =
        [some (.machine (.decode ⟨1, .registerOutOfRange 32⟩)),
         some (.machine (.fault 2 (.access (.outOfBounds (-1) .byte 16)))),
         some (.snapshot (.registerCount 0)), some (.machine (.stepLimit 3))] := by
  intro config add load wild requests
  have allocates : ∀ request ∈ requests, request.Allocates := by
    intro request mem
    simp only [requests, List.mem_cons, List.not_mem_nil, or_false] at mem
    rcases mem with rfl | rfl | rfl | rfl
    · exact nofun
    · exact nofun
    · exact nofun
    · exact ⟨by decide, by decide +kernel⟩
  exact ⟨_, _, requests_never_abort config (by decide) requests allocates, by decide +kernel⟩

end Checked

end Rv32i
