import Rv32i.Proofs.Machine.InPlace
import Rv32i.Proofs.Session.Invariant

/-!
# What a failed request leaves

A session that serves a request changes in place: the machine is zeroed or replaced, it steps, and
whatever has changed when an error comes stays changed. Here the requests are written so, check by
check and cell by cell, and are shown to be the ones that run.

* `Machine.runInPlace` and `run_runInPlace`: the steps of a run on one machine;
* `Snapshot.fill` and `filled_fill`: a snapshot is restored into a hart of its own, which is dropped
  with all that was written to it if a late cell is refused;
* `Session.runInPlace`, `Session.stepInPlace`: requests in the order of their parts.

The main statement, `failed_requests_leave`, says for each error what the session is left with.
-/

namespace Rv32i

/-! ## 1. Runs in place -/

/-- An outcome and what it leaves, as they come from a computation in place. -/
def leaving {ε σ α : Type} : Except ε α × σ → EStateM.Result ε σ α
  | (.ok value, left) => .ok value left
  | (.error error, left) => .error error left

theorem leaving_eq_error_iff {ε σ α : Type} {result : Except ε α × σ} {error : ε} {left : σ} :
    leaving result = .error error left ↔ result = (.error error, left) := by
  rcases result with ⟨cause | value, _⟩ <;> simp [leaving]

namespace Machine

/-- Steps in place until the machine has halted, while the budget lasts. -/
def runWithinInPlace (program : Program) (executed : Nat) : Nat → EStateM MachineError Machine Nat
  | 0 => do
    let m ← get
    if m.hart.halted then return executed
    else throw (.stepLimit m.maxSteps)
  | budget + 1 => do
    let m ← get
    if m.hart.halted then return executed
    else match ← stepInPlace program with
      | .executed => runWithinInPlace program (executed + 1) budget
      | .idle => return executed

/-- Steps in place until the machine has halted; the number of instructions executed. -/
def runInPlace (program : Program) : EStateM MachineError Machine Nat := do
  runWithinInPlace program 0 (← get).maxSteps

theorem run_runWithinInPlace (program : Program) (executed budget : Nat) (m : Machine) :
    (runWithinInPlace program executed budget).run m =
      leaving (m.runWithin program executed budget) := by
  induction budget generalizing executed m with
  | zero =>
    simp only [runWithinInPlace, runWithin, EStateM.run_bind, EStateM.run_get]
    split <;> rfl
  | succ budget ih =>
    simp only [runWithinInPlace, runWithin, EStateM.run_bind, EStateM.run_get]
    split
    · rfl
    · simp only [EStateM.run_bind, run_stepInPlace]
      rcases m.step program with ⟨error | ⟨_ | _⟩, after⟩
      · rfl
      · exact ih (executed + 1) after
      · rfl

/-- **A run in place is a run**, with the same outcome and the same machine after it. -/
theorem run_runInPlace (program : Program) (m : Machine) :
    (runInPlace program).run m = leaving (m.run program) :=
  run_runWithinInPlace program 0 m.maxSteps m

end Machine

/-! ## 2. Restoring in place -/

namespace Snapshot

/-- Cells go to the memory of a hart one after the other, up to the first one outside it. -/
def fillCells : List Cell → EStateM SnapshotError Hart Unit
  | [] => return
  | cell :: cells => do
    let h ← get
    if cell.address.toNat < h.memory.size then
      modify fun h => { h with memory := h.memory.setByte cell.address.toNat cell.value }
      fillCells cells
    else throw (.addressOutOfRange cell.address h.memory.size)

/-- Register 0 is one of those counted. -/
theorem zero_lt_count : 0 < 32 := by
  decide

/-- The state of a snapshot goes to a zeroed hart. Registers are counted before any is written, so
    only a cell can be refused halfway. -/
def fill (s : Snapshot) : EStateM SnapshotError Hart Unit :=
  if h : s.registers.length = 32 then do
    modify fun hart =>
      { hart with regs := (Vector.mk s.registers.toArray h).set 0 0 zero_lt_count }
    fillCells s.memory
    modify fun hart => { hart with pc := s.pc }
    if s.halted then modify Hart.halt
  else throw (.registerCount s.registers.length)

/-- The hart that is filled, or the error. What went into it before the error is dropped with it. -/
def filled (fill : EStateM SnapshotError Hart Unit) (scratch : Hart) : Except SnapshotError Hart :=
  match fill.run scratch with
  | .ok () hart => .ok hart
  | .error error _ => .error error

@[simp] theorem filled_modify (f : Hart → Hart) (h : Hart) : filled (modify f) h = .ok (f h) :=
  rfl

/-- A hart is filled by one computation after another. -/
@[simp] theorem filled_bind (first : EStateM SnapshotError Hart Unit)
    (next : Unit → EStateM SnapshotError Hart Unit) (h : Hart) :
    filled (first >>= next) h = filled first h >>= filled (next ()) := by
  simp only [filled, EStateM.run_bind]
  rcases first.run h with ⟨⟩ | error <;> rfl

theorem filled_fillCells (cells : List Cell) (h : Hart) :
    filled (fillCells cells) h =
      (writeCells h.memory cells).map fun memory => { h with memory } := by
  induction cells generalizing h with
  | nil => rfl
  | cons cell cells ih =>
    have later := ih { h with memory := h.memory.setByte cell.address.toNat cell.value }
    by_cases inside : cell.address.toNat < h.memory.size
    · simp only [fillCells, writeCells, filled, EStateM.run_bind, EStateM.run_get, if_pos inside]
      exact later
    · simp only [fillCells, writeCells, filled, EStateM.run_bind, EStateM.run_get, if_neg inside]
      rfl

/-- **Filling a hart of its own restores a snapshot**, or fails with the same error. -/
theorem filled_fill (s : Snapshot) (memorySize : Nat) :
    filled s.fill (.zero memorySize) = s.restore memorySize := by
  unfold fill restore
  by_cases count : s.registers.length = 32
  · simp only [dif_pos count, filled_bind, filled_modify, filled_fillCells, ok_bind]
    show (Except.map _ (writeCells (.zero memorySize) s.memory) >>= _) = _
    cases writeCells (.zero memorySize) s.memory with
    | error error => rfl
    | ok memory => cases s.halted <;> rfl
  · rw [dif_neg count, dif_neg count]
    rfl

end Snapshot

/-! ## 3. Requests in place -/

namespace Session

/-- A computation on the machine of a session. -/
def onMachine {α : Type} (change : EStateM MachineError Machine α) :
    EStateM SessionError Session α := fun session =>
  match change.run session.machine with
  | .ok result machine => .ok result { session with machine }
  | .error error machine => .error (.machine error) { session with machine }

/-- The program of a source, as a computation that changes nothing. -/
def parseInPlace (source : String) : EStateM SessionError Session Program :=
  match Program.parse source with
  | .ok program => return program
  | .error error => throw (.parse error)

/-- The program that the snapshot carries, or that of the source. -/
def programInPlace (source : String) (snapshot : Option Snapshot) :
    EStateM SessionError Session Program :=
  match snapshot.bind (·.instructions) with
  | some records => return .ofRecords records
  | none => parseInPlace source

/-- The machine of a snapshot takes the place of the session's own. -/
def startInPlace : Option Snapshot → EStateM SessionError Session Unit
  | none => return
  | some snapshot => do
    let session ← get
    match Snapshot.filled snapshot.fill (.zero session.config.memorySize) with
    | .ok hart => set { session with machine := .withHart session.config hart }
    | .error error => throw (.snapshot error)

/-- Parses a source, zeroes the machine and executes the source until it halts. -/
def runInPlace (source : String) : EStateM SessionError Session RunOutput := do
  let program ← parseInPlace source
  modify fun session => { session with machine := session.machine.reset }
  let steps ← onMachine (Machine.runInPlace program)
  return ⟨.ofHart (← get).machine.hart, steps⟩

/-- Executes one instruction. -/
def stepInPlace (source : String) (snapshot : Option Snapshot) :
    EStateM SessionError Session RunOutput := do
  let program ← programInPlace source snapshot
  startInPlace snapshot
  let outcome ← onMachine (Machine.stepInPlace program)
  let taken := Snapshot.ofHart (← get).machine.hart
  return ⟨taken.withInstructions program.records, stepCount outcome⟩

theorem run_onMachine {α : Type} (change : EStateM MachineError Machine α) (session : Session) :
    (onMachine change).run session = match change.run session.machine with
      | .ok result machine => .ok result { session with machine }
      | .error error machine => .error (.machine error) { session with machine } :=
  rfl

theorem run_parseInPlace (source : String) (session : Session) :
    (parseInPlace source).run session = match Program.parse source with
      | .ok program => .ok program session
      | .error error => .error (.parse error) session := by
  unfold parseInPlace
  cases Program.parse source <;> rfl

theorem run_programInPlace (source : String) (snapshot : Option Snapshot) (session : Session) :
    (programInPlace source snapshot).run session = match programOf source snapshot with
      | .ok program => .ok program session
      | .error error => .error (.parse error) session := by
  unfold programInPlace programOf
  cases snapshot.bind (·.instructions) with
  | some records => rfl
  | none => exact run_parseInPlace source session

/-- **A snapshot that is refused leaves the session alone**; one that is not replaces its
    machine. -/
theorem run_startInPlace (snapshot : Option Snapshot) (session : Session) :
    (startInPlace snapshot).run session = match session.startOf snapshot with
      | .ok machine => .ok () { session with machine }
      | .error error => .error (.snapshot error) session := by
  cases snapshot with
  | none => rfl
  | some snapshot =>
    simp only [startInPlace, startOf, EStateM.run_bind, EStateM.run_get, Snapshot.filled_fill]
    cases snapshot.restore session.config.memorySize <;> rfl

/-- **A run in place is a run**: the result is the same, and so is the session after it. -/
theorem run_runInPlace (session : Session) (source : String) :
    (runInPlace source).run session = leaving (session.run source) := by
  simp only [runInPlace, run, EStateM.run_bind, run_parseInPlace]
  cases Program.parse source with
  | error error => rfl
  | ok program =>
    simp only [EStateM.run_modify, run_onMachine, Machine.run_runInPlace]
    rcases session.machine.reset.run program with ⟨error | steps, machine⟩ <;> rfl

/-- **A step in place is a step**: the result is the same, and so is the session after it. -/
theorem run_stepInPlace (session : Session) (source : String) (snapshot : Option Snapshot) :
    (stepInPlace source snapshot).run session = leaving (session.step source snapshot) := by
  simp only [stepInPlace, EStateM.run_bind, run_programInPlace]
  cases parsed : programOf source snapshot with
  | error error =>
    simp only [step, parsed]
    rfl
  | ok program =>
    simp only [run_startInPlace]
    cases start : session.startOf snapshot with
    | error error =>
      simp only [step, parsed, start]
      rfl
    | ok machine =>
      simp only [run_onMachine, Machine.run_stepInPlace]
      obtain ⟨outcome, after, stepped, eq⟩ | ⟨error, after, stepped, eq⟩ :=
        step_of_start source parsed start
      · rw [stepped, eq]
        rfl
      · rw [stepped, eq]
        rfl

end Session

/-! ## 4. What a failure leaves -/

/-- **An attempt that fails leaves the hart** as it was. -/
theorem Machine.Attempt.hart_of_error {program : Program} {m after : Machine}
    {error : MachineError} (h : Attempt program m (.error error) after) :
    after.hart = m.hart := by
  cases h <;> rfl

/-- **A run that fails has executed instructions up to the failure**, and leaves the machine of the
    step that fails, or the one at the limit. -/
theorem Machine.run_eq_error_pair_iff {program : Program} {m after : Machine}
    {error : MachineError} :
    m.run program = (.error error, after) ↔
      (∃ k l, Executes program m k l ∧ k < m.maxSteps ∧ l.step program = (.error error, after)) ∨
      (Executes program m m.maxSteps after ∧ after.hart.halted = false ∧
        error = .stepLimit m.maxSteps) := by
  constructor
  · intro failed
    rcases executes_or_stops program m m.maxSteps with ⟨l, executes⟩ | ⟨k, lt, l, stops⟩
    · rw [run_of_executes_all executes] at failed
      cases halted : l.hart.halted with
      | true =>
        rw [halted] at failed
        cases failed
      | false =>
        rw [halted] at failed
        cases failed
        exact .inr ⟨executes, halted, rfl⟩
    · rw [run_of_stops stops lt] at failed
      refine .inl ⟨k, l, stops.executes, lt, ?_⟩
      rcases stepped : l.step program with ⟨cause | outcome, left⟩
      · rw [stepped] at failed
        cases failed
        rfl
      · rw [stepped] at failed
        cases failed
  · rintro (⟨k, l, executes, lt, failed⟩ | ⟨executes, running, rfl⟩)
    · have stops : Stops program m k l := ⟨executes, by rw [failed]; exact nofun⟩
      rw [run_of_stops stops lt, failed]
      rfl
    · rw [run_of_executes_all executes, running]
      rfl

namespace Session

/-- The zeroed machine that a run of the session starts from. -/
def zeroed (session : Session) : Machine :=
  ⟨.zero session.machine.hart.memory.size, .empty session.machine.history.depth,
    session.machine.maxSteps⟩

/-- **What a failed run leaves**, for each error. -/
inductive RunLeaves (session : Session) (source : String) : SessionError → Session → Prop
  /-- A source that does not parse: nothing has changed. -/
  | unparsed {cause : ParseError} (parse : Program.parse source = .error cause) :
    RunLeaves session source (.parse cause) session
  /-- A step that fails below the limit: the state is the one that the instructions before it have
      led to from the zeroed one. -/
  | failing {program : Program} {k : Nat} {l after : Machine} {cause : MachineError}
      (parse : Program.parse source = .ok program)
      (executes : Machine.Executes program session.zeroed k l) (lt : k < session.machine.maxSteps)
      (step : l.step program = (.error cause, after)) (hart : after.hart = l.hart) :
    RunLeaves session source (.machine cause) { session with machine := after }
  /-- No end within the limit: the state is the one that as many instructions have led to. -/
  | limit {program : Program} {l : Machine} (parse : Program.parse source = .ok program)
      (executes : Machine.Executes program session.zeroed session.machine.maxSteps l)
      (running : l.hart.halted = false) :
    RunLeaves session source (.machine (.stepLimit session.machine.maxSteps))
      { session with machine := l }

/-- The state is the one of the snapshot if one is given, else the session's own. -/
def StartsFrom (session : Session) (h : Hart) : Option Snapshot → Prop
  | none => h = session.machine.hart
  | some snapshot => snapshot.restore session.config.memorySize = .ok h

/-- **What a failed step leaves**, for each error. -/
inductive StepLeaves (session : Session) (source : String) (snapshot : Option Snapshot) :
    SessionError → Session → Prop
  /-- No program to step: nothing has changed. -/
  | unparsed {cause : ParseError} (parse : programOf source snapshot = .error cause) :
    StepLeaves session source snapshot (.parse cause) session
  /-- A snapshot that is refused, be it for its last cell: nothing has changed. -/
  | refused {program : Program} {given : Snapshot} {cause : SnapshotError}
      (parse : programOf source snapshot = .ok program) (isGiven : snapshot = some given)
      (restore : given.restore session.config.memorySize = .error cause) :
    StepLeaves session source snapshot (.snapshot cause) session
  /-- An instruction that fails: the state is the one that the step started from. -/
  | failing {program : Program} {start after : Machine} {cause : MachineError}
      (parse : programOf source snapshot = .ok program)
      (starts : session.startOf snapshot = .ok start)
      (step : start.step program = (.error cause, after))
      (hart : session.StartsFrom after.hart snapshot) :
    StepLeaves session source snapshot (.machine cause) { session with machine := after }

/-- A step from a snapshot starts from its hart, or from none if it is refused. -/
theorem startOf_some (session : Session) (given : Snapshot) :
    (∃ h, given.restore session.config.memorySize = .ok h ∧
      session.startOf (some given) = .ok (.withHart session.config h)) ∨
    ∃ cause, given.restore session.config.memorySize = .error cause ∧
      session.startOf (some given) = .error cause := by
  rw [startOf]
  cases given.restore session.config.memorySize with
  | error cause => exact .inr ⟨cause, rfl, rfl⟩
  | ok h => exact .inl ⟨h, rfl, rfl⟩

/-- A step that fails leaves the hart it started from. -/
theorem startsFrom_of_step {session : Session} {snapshot : Option Snapshot} {program : Program}
    {start after : Machine} {cause : MachineError} (starts : session.startOf snapshot = .ok start)
    (failed : start.step program = (.error cause, after)) :
    session.StartsFrom after.hart snapshot := by
  have atomic : after.hart = start.hart := (Machine.Attempt.of_step failed).hart_of_error
  rw [atomic]
  cases snapshot with
  | none =>
    cases starts
    rfl
  | some given =>
    rcases session.startOf_some given with ⟨h, restored, start⟩ | ⟨_, _, refused⟩
    · cases starts.symm.trans start
      exact restored
    · cases starts.symm.trans refused

theorem run_eq_error_iff {session after : Session} {source : String} {error : SessionError} :
    session.run source = (.error error, after) ↔ RunLeaves session source error after := by
  constructor
  · intro failed
    cases parse : Program.parse source with
    | error cause =>
      rw [run_of_parse_error session parse] at failed
      cases failed
      exact .unparsed parse
    | ok program =>
      rcases ran : session.machine.reset.run program with ⟨cause | steps, machine⟩
      · rw [run_of_error session parse ran] at failed
        cases failed
        rcases Machine.run_eq_error_pair_iff.mp ran with
          ⟨k, l, executes, lt, step⟩ | ⟨executes, running, rfl⟩
        · exact .failing parse executes lt step (Machine.Attempt.of_step step).hart_of_error
        · exact .limit parse executes running
      · rw [run_of_ok session parse ran] at failed
        cases failed
  · intro leaves
    cases leaves with
    | unparsed parse => exact run_of_parse_error session parse
    | failing parse executes lt step _ =>
      exact run_of_error session parse
        (Machine.run_eq_error_pair_iff.mpr (.inl ⟨_, _, executes, lt, step⟩))
    | limit parse executes running =>
      exact run_of_error session parse
        (Machine.run_eq_error_pair_iff.mpr (.inr ⟨executes, running, rfl⟩))

theorem step_eq_error_iff {session after : Session} {source : String}
    {snapshot : Option Snapshot} {error : SessionError} :
    session.step source snapshot = (.error error, after) ↔
      StepLeaves session source snapshot error after := by
  constructor
  · intro failed
    cases parse : programOf source snapshot with
    | error cause =>
      simp only [step, parse] at failed
      cases failed
      exact .unparsed parse
    | ok program =>
      cases starts : session.startOf snapshot with
      | error cause =>
        simp only [step, parse, starts] at failed
        cases failed
        cases snapshot with
        | none => cases starts
        | some given =>
          rcases session.startOf_some given with ⟨_, _, start⟩ | ⟨_, restore, refused⟩
          · cases starts.symm.trans start
          · cases starts.symm.trans refused
            exact .refused parse rfl restore
      | ok start =>
        obtain ⟨_, _, -, eq⟩ | ⟨cause, machine, stepped, eq⟩ := step_of_start source parse starts
        · rw [eq] at failed
          cases failed
        · rw [eq] at failed
          cases failed
          exact .failing parse starts stepped (startsFrom_of_step starts stepped)
  · intro leaves
    cases leaves with
    | unparsed parse => simp only [step, parse]
    | refused parse isGiven restore =>
      subst isGiven
      simp only [step, parse, startOf, restore, Except.map]
    | failing parse starts step' _ => simp only [step, parse, starts, step']

/-- **What a failed request leaves.** A run or a step fails exactly in the ways listed, in which a
    source that does not parse and a snapshot that is refused have changed nothing, a step that
    fails leaves the state it started from, and a run that fails leaves what the instructions before
    the failure have made of the zeroed state. That is so although requests change the session in
    place. -/
theorem failed_requests_leave (session : Session) (source : String) (snapshot : Option Snapshot)
    (error : SessionError) (after : Session) :
    ((runInPlace source).run session = .error error after ↔
      RunLeaves session source error after) ∧
    ((stepInPlace source snapshot).run session = .error error after ↔
      StepLeaves session source snapshot error after) ∧
    (session.run source = (.error error, after) ↔ RunLeaves session source error after) ∧
    (session.step source snapshot = (.error error, after) ↔
      StepLeaves session source snapshot error after) := by
  refine ⟨?_, ?_, run_eq_error_iff, step_eq_error_iff⟩
  · rw [run_runInPlace, leaving_eq_error_iff, run_eq_error_iff]
  · rw [run_stepInPlace, leaving_eq_error_iff, step_eq_error_iff]

/-- A run that faults at its third instruction leaves what the first two have written, and a
    snapshot whose third cell is refused takes nothing of it away. -/
theorem failed_requests_leave_late_cell :
    let config : MachineConfig := { memorySize := 16, maxSteps := 3, historyDepth := 2 }
    let session := (new config).serve (.run "addi x1, x0, 5\nsb x1, 3(x0)\nlw x2, 2(x0)")
    let late : Snapshot :=
      { registers := .replicate 32 7, memory := [⟨3, 1⟩, ⟨15, 2⟩, ⟨16, 3⟩], pc := 0, halted := false
        instructions := some #[] }
    session.machine.hart.reg 1 = 5 ∧ session.machine.hart.memory.byte 3 = 5 ∧
      (stepInPlace "" (some late)).run session =
        .error (.snapshot (.addressOutOfRange 16 16)) session := by
  intro config session late
  have size : session.config.memorySize = 16 := by decide +kernel
  have outside : late.Outside 16 ⟨16, 3⟩ :=
    ⟨rfl, [⟨3, 1⟩, ⟨15, 2⟩], [], rfl, by decide, by decide⟩
  have refused : late.restore session.config.memorySize = .error (.addressOutOfRange 16 16) :=
    size ▸ Snapshot.restore_of_outside outside
  obtain ⟨-, leaves, -⟩ := failed_requests_leave session "" (some late)
    (.snapshot (.addressOutOfRange 16 16)) session
  exact ⟨by decide +kernel, by decide +kernel, leaves.mpr (.refused rfl rfl refused)⟩

end Session

end Rv32i
