import Rv32i.Proofs.Machine.Attempt

/-!
# Execution in place

`Instruction.effect` finds out what an instruction does before `Hart.apply` does it. A processor
works in place: it reads, checks and changes one register, one byte or the program counter after
the other, and what it has changed when a check fails stays changed. Here the instructions and the
step of the machine are written so, and are shown to be the ones that run.

* `Instruction.executeInPlace` and `run_executeInPlace`: the outcome is that of
  `Instruction.execute`, and with a fault the hart is as before;
* `Machine.stepInPlace` and `run_stepInPlace`: the outcome and the machine are those of
  `Machine.step`.

The main statement, `faults_are_atomic`, says what is left of an instruction or a step that fails.
-/

namespace Rv32i

/-! ## 1. Changes of a hart -/

/-- A computation that changes a hart in place, until it ends or a fault stops it. -/
abbrev InPlace :=
  EStateM Fault Hart

namespace InPlace

def readRegister (r : Reg) : InPlace Word :=
  return (← get).reg r

def writeRegister (r : Reg) (value : Word) : InPlace Unit :=
  modify (·.setReg r value)

def setPc (slot : Word) : InPlace Unit :=
  modify fun h => { h with pc := slot }

def advance : InPlace Unit :=
  modify Hart.advance

/-- An access that is refused stops the instruction. -/
def check (width : Width) (addr : Word) : InPlace Unit := do
  match (← get).memory.fault? width addr with
  | some fault => throw (.access fault)
  | none => return

def load (width : Width) (addr : Word) : InPlace Word := do
  check width addr
  return (← get).memory.peek width addr.toNat

/-- The low bytes of a number go to memory one after the other, the lowest first. -/
def writeBytes (addr value : Nat) : Nat → InPlace Unit
  | 0 => return
  | n + 1 => do
    modify fun h => { h with memory := h.memory.setByte addr (BitVec.ofNat 8 value) }
    writeBytes (addr + 1) (value / 256) n

def store (width : Width) (addr value : Word) : InPlace Unit := do
  check width addr
  writeBytes addr.toNat value.toNat width.bytes

/-- A jump before the program stops the instruction. -/
def relativeTarget (offset : Word) : InPlace Word := do
  match (← get).relativeSlot offset with
  | .ok slot => return slot
  | .error fault => throw fault

def linkAddress : InPlace Word :=
  return (← get).linkAddress

section

variable (h : Hart)

@[simp] theorem run_readRegister (r : Reg) : (readRegister r).run h = .ok (h.reg r) h :=
  rfl

@[simp] theorem run_writeRegister (r : Reg) (value : Word) :
    (writeRegister r value).run h = .ok () (h.setReg r value) :=
  rfl

@[simp] theorem run_setPc (slot : Word) : (setPc slot).run h = .ok () { h with pc := slot } :=
  rfl

@[simp] theorem run_advance : advance.run h = .ok () h.advance :=
  rfl

@[simp] theorem run_linkAddress : linkAddress.run h = .ok h.linkAddress h :=
  rfl

/-- **A check changes nothing**, whether the access is refused or not. -/
@[simp] theorem run_check (width : Width) (addr : Word) :
    (check width addr).run h = match h.memory.fault? width addr with
      | some fault => .error (.access fault) h
      | none => .ok () h := by
  simp only [check, EStateM.run_bind, EStateM.run_get]
  cases h.memory.fault? width addr <;> rfl

@[simp] theorem run_load (width : Width) (addr : Word) :
    (load width addr).run h = match h.memory.load width addr with
      | .ok value => .ok value h
      | .error fault => .error (.access fault) h := by
  simp only [load, Memory.load, EStateM.run_bind, run_check]
  cases h.memory.fault? width addr <;> rfl

/-- Bytes written one after the other are the bytes of one value. -/
@[simp] theorem run_writeBytes (addr value n : Nat) :
    (writeBytes addr value n).run h =
      .ok () { h with memory := h.memory.pokeNat addr value n } := by
  induction n generalizing addr value h with
  | zero => rfl
  | succ n ih =>
    simp only [writeBytes, EStateM.run_bind, EStateM.run_modify, ih]
    rfl

/-- **A store checks before it writes**: no byte of a refused access is written. -/
@[simp] theorem run_store (width : Width) (addr value : Word) :
    (store width addr value).run h = match h.memory.fault? width addr with
      | some fault => .error (.access fault) h
      | none => .ok () { h with memory := h.memory.poke width addr.toNat value } := by
  simp only [store, EStateM.run_bind, run_check]
  cases h.memory.fault? width addr with
  | some fault => rfl
  | none => exact run_writeBytes ..

@[simp] theorem run_relativeTarget (offset : Word) :
    (relativeTarget offset).run h = match h.relativeSlot offset with
      | .ok slot => .ok slot h
      | .error fault => .error fault h := by
  simp only [relativeTarget, EStateM.run_bind, EStateM.run_get]
  cases h.relativeSlot offset <;> rfl

end

end InPlace

/-! ## 2. Instructions -/

namespace Instruction

open InPlace

/-- An instruction, executed in place. -/
def executeInPlace : Instruction → InPlace Unit
  | .op o rd rs1 rs2 => do
    let a ← readRegister rs1
    let b ← readRegister rs2
    writeRegister rd (o.apply a b)
    advance
  | .opImm o rd rs1 imm => do
    let a ← readRegister rs1
    writeRegister rd (o.toAluOp.apply a imm)
    advance
  | .shiftImm o rd rs1 shamt => do
    let a ← readRegister rs1
    writeRegister rd (o.apply a shamt)
    advance
  | .load o rd rs1 offset => do
    let base ← readRegister rs1
    let value ← InPlace.load o.width (base + offset)
    writeRegister rd (o.extend value)
    advance
  | .store width rs1 rs2 offset => do
    let base ← readRegister rs1
    let value ← readRegister rs2
    InPlace.store width (base + offset) value
    advance
  | .branch cond rs1 rs2 offset => do
    let a ← readRegister rs1
    let b ← readRegister rs2
    if cond.holds a b then
      let target ← relativeTarget offset
      setPc target
    else advance
  | .jal rd offset => do
    -- the target comes first: a jump before the program leaves no link
    let target ← relativeTarget offset
    writeRegister rd (← linkAddress)
    setPc target
  | .jalr rd rs1 offset => do
    -- the base is read before the link is written, which may go to the same register
    let base ← readRegister rs1
    writeRegister rd (← linkAddress)
    setPc (((base + offset) &&& ~~~1) >>> 2)
  | .lui rd imm => do
    writeRegister rd imm
    advance
  | .auipc rd imm => do
    writeRegister rd ((← get).pcAddress + imm)
    advance
  | .halt => modify Hart.halt

/-- **Execution in place is execution**: it comes to the same hart, or to the same fault with the
    hart as it was. -/
theorem run_executeInPlace (i : Instruction) (h : Hart) :
    i.executeInPlace.run h = match i.execute h with
      | .ok after => .ok () after
      | .error fault => .error fault h := by
  cases i with
  | op | opImm | shiftImm | lui | auipc =>
    simp only [executeInPlace, EStateM.run_bind, EStateM.run_get, run_readRegister,
      run_writeRegister, run_advance, Hart.advance_setReg]
    rfl
  | load o rd rs1 offset =>
    simp only [executeInPlace, execute, effect, EStateM.run_bind, run_readRegister, run_load]
    cases h.memory.load o.width (h.reg rs1 + offset) with
    | ok value =>
      simp only [run_writeRegister, run_advance, Hart.advance_setReg]
      rfl
    | error fault => rfl
  | store width rs1 rs2 offset =>
    simp only [executeInPlace, execute, effect, EStateM.run_bind, run_readRegister, run_store]
    cases h.memory.fault? width (h.reg rs1 + offset) with
    | some fault => rfl
    | none => rfl
  | branch cond rs1 rs2 offset =>
    simp only [executeInPlace, execute, effect, EStateM.run_bind, run_readRegister]
    by_cases taken : cond.holds (h.reg rs1) (h.reg rs2)
    · simp only [if_pos taken, EStateM.run_bind, run_relativeTarget]
      cases h.relativeSlot offset with
      | ok target => rfl
      | error fault => rfl
    · simp only [if_neg taken]
      rfl
  | jal rd offset =>
    simp only [executeInPlace, execute, effect, EStateM.run_bind, run_relativeTarget]
    cases h.relativeSlot offset with
    | ok target => rfl
    | error fault => rfl
  | jalr | halt => rfl

end Instruction

/-! ## 3. Steps -/

namespace Machine

/-- A computation on the hart of a machine. A fault names the line of the instruction. -/
def onHart (line : Nat) (change : InPlace Unit) : EStateM MachineError Machine Unit := fun m =>
  match change.run m.hart with
  | .ok () hart => .ok () { m with hart }
  | .error fault hart => .error (.fault line fault) { m with hart }

theorem run_onHart (line : Nat) (change : InPlace Unit) (m : Machine) :
    (onHart line change).run m = match change.run m.hart with
      | .ok () hart => .ok () { m with hart }
      | .error fault hart => .error (.fault line fault) { m with hart } :=
  rfl

/-- The machine halts if its program counter has left the program. -/
def haltOutside (program : Program) (m : Machine) : Machine :=
  if !m.hart.halted && program.size ≤ m.hart.pc.toNat then m.halt else m

/-- One attempt to execute the instruction at the program counter, in place. -/
def stepInPlace (program : Program) : EStateM MachineError Machine StepOutcome := do
  let m ← get
  if m.hart.halted then return .idle
  else match program.record? m.hart.pc.toNat with
    | none => do
      modify halt
      return .idle
    | some record =>
      match record.decode with
      | .error error => throw (.decode error)
      | .ok instruction => do
        -- the attempt is noted before it is known to succeed
        modify (note · record)
        onHart record.line instruction.executeInPlace
        modify (haltOutside program)
        return .executed

/-- After an effect only a machine that still runs has to be halted: halting is idempotent. -/
theorem haltOutside_apply (program : Program) (m : Machine) (e : Effect) :
    haltOutside program { m with hart := m.hart.apply e } = m.apply program e := by
  unfold haltOutside apply
  by_cases outside : program.size ≤ (m.hart.apply e).pc.toNat
  · cases halted : (m.hart.apply e).halted with
    | false => simp [outside, halt]
    | true =>
      have same : (m.hart.apply e).halt = m.hart.apply e := by rw [Hart.halt, ← halted]
      simp [outside, same]
  · simp [outside]

/-- **A step in place is a step**, with the same outcome and the same machine after it. -/
theorem run_stepInPlace (program : Program) (m : Machine) :
    (stepInPlace program).run m = match m.step program with
      | (.ok outcome, after) => .ok outcome after
      | (.error error, after) => .error error after := by
  simp only [stepInPlace, EStateM.run_bind, EStateM.run_get]
  cases halted : m.hart.halted with
  | true =>
    rw [step, halted]
    rfl
  | false =>
    cases fetch : program.record? m.hart.pc.toNat with
    | none =>
      rw [step, halted, fetch]
      rfl
    | some record =>
      cases decode : record.decode with
      | error error =>
        simp only [step, halted, fetch, decode]
        rfl
      | ok i =>
        have noted : (m.note record).hart = m.hart := rfl
        cases effect : i.effect m.hart with
        | error fault =>
          have fails : i.execute m.hart = .error fault :=
            congrArg (Except.map m.hart.apply) effect
          simp only [step, halted, fetch, decode, noted, effect, Bool.false_eq_true, ↓reduceIte,
            EStateM.run_bind, EStateM.run_modify, run_onHart, Instruction.run_executeInPlace, fails]
          rfl
        | ok e =>
          have runs : i.execute m.hart = .ok (m.hart.apply e) :=
            congrArg (Except.map m.hart.apply) effect
          simp only [step, halted, fetch, decode, noted, effect, Bool.false_eq_true, ↓reduceIte,
            EStateM.run_bind, EStateM.run_modify, run_onHart, Instruction.run_executeInPlace, runs]
          exact congrArg (EStateM.Result.ok StepOutcome.executed)
            (haltOutside_apply program (m.note record) e)

end Machine

/-! ## 4. What a failure leaves -/

/-- **A failing step names its cause**: a record that does not decode, which leaves the machine
    as it was, or an instruction that faults, which is noted in the history and nowhere else. -/
theorem Machine.step_eq_error {program : Program} {m after : Machine} {error : MachineError}
    (failed : m.step program = (.error error, after)) :
    (∃ record cause, program.record? m.hart.pc.toNat = some record ∧
      record.decode = .error cause ∧ error = .decode cause ∧ after = m) ∨
    ∃ record i fault, program.record? m.hart.pc.toNat = some record ∧ record.decode = .ok i ∧
      i.execute m.hart = .error fault ∧ error = .fault record.line fault ∧
      after = m.note record := by
  cases Attempt.of_step failed with
  | undecodable _ fetch decode => exact .inl ⟨_, _, fetch, decode, rfl, rfl⟩
  | faulting _ fetch decode effect =>
    exact .inr ⟨_, _, _, fetch, decode, congrArg (Except.map m.hart.apply) effect, rfl, rfl⟩

/-- **Faults are atomic.** An instruction that faults leaves registers, memory, program counter
    and the mark of halting as they were, although it is executed in place. So does a step that
    fails; its history has the entry of the attempt if the instruction faulted, and is as before
    if there was none to execute. -/
theorem faults_are_atomic (program : Program) (m : Machine) :
    (∀ (i : Instruction) (h after : Hart) (fault : Fault),
      i.executeInPlace.run h = .error fault after ↔ i.execute h = .error fault ∧ after = h) ∧
    ∀ (error : MachineError) (after : Machine),
      ((Machine.stepInPlace program).run m = .error error after ↔
        m.step program = (.error error, after)) ∧
      (m.step program = (.error error, after) →
        after.hart = m.hart ∧ after.maxSteps = m.maxSteps ∧
          ((∃ cause, error = .decode cause ∧ after.history = m.history) ∨
            ∃ record i fault, program.record? m.hart.pc.toNat = some record ∧
              record.decode = .ok i ∧ i.execute m.hart = .error fault ∧
              error = .fault record.line fault ∧ after.history.depth = m.history.depth ∧
              after.history.entries = List.drop (m.history.length + 1 - m.history.depth)
                (m.history.entries ++ [⟨m.hart.pc, record.line, record.source⟩]))) := by
  refine ⟨fun i h after fault => ?_, fun error after => ⟨?_, fun failed => ?_⟩⟩
  · rw [Instruction.run_executeInPlace]
    cases i.execute h with
    | ok done => simp
    | error cause => simp [eq_comm]
  · rw [Machine.run_stepInPlace]
    rcases m.step program with ⟨cause | outcome, left⟩
    · simp
    · simp
  · rcases Machine.step_eq_error failed with
      ⟨_, cause, _, _, rfl, rfl⟩ | ⟨record, i, fault, fetch, decode, fails, rfl, rfl⟩
    · exact ⟨rfl, rfl, .inl ⟨cause, rfl, rfl⟩⟩
    · exact ⟨rfl, rfl, .inr ⟨record, i, fault, fetch, decode, fails, rfl,
        History.depth_push .., History.entries_push ..⟩⟩

/-- A jump by an offset that is no multiple of four, before the program: no link is written. -/
theorem faults_are_atomic_jump :
    let jump : Record :=
      { opcode := .jal, format := .uj, index := 0, line := 3, source := "jal x1, -6",
        rd := some 1, imm := some (-6) }
    let program : Program := ⟨#[jump], ⟨[]⟩⟩
    let m := Machine.new { memorySize := 16, maxSteps := 5, historyDepth := 2 }
    ∃ after, (Machine.stepInPlace program).run m = .error (.fault 3 (.jumpTarget (-1))) after ∧
      after.hart = m.hart ∧ after.history.entries = [⟨0, 3, "jal x1, -6"⟩] := by
  intro jump program m
  have failed : m.step program = (.error (.fault 3 (.jumpTarget (-1))), m.note jump) := rfl
  obtain ⟨inPlace, atomic⟩ :=
    (faults_are_atomic program m).2 (.fault 3 (.jumpTarget (-1))) (m.note jump)
  exact ⟨m.note jump, inPlace.mpr failed, (atomic failed).1, rfl⟩

end Rv32i
