import Rv32i.Proofs.Checked.Execute
import Rv32i.Proofs.Machine.Attempt
import Rv32i.Session.Snapshot

/-!
# Machines and snapshots with machine integers

* `Checked.step_eq`: a step never aborts, whatever the records of the program;
* `Checked.run_eq`: nor does a run, since it counts no further than the limit on its steps;
* `restoreRegisters_eq`: registers are counted before they are written, and `restore_eq`: so a
  snapshot from anywhere is restored or refused.
-/

namespace Rv32i.Checked

/-! ## 1. Steps -/

/-- One attempt to execute the instruction at the program counter. -/
def step (program : Program) (m : Machine) :
    Except Abort (Except MachineError StepOutcome × Machine) :=
  if m.hart.halted then return (.ok .idle, m)
  else match program.record? m.hart.pc.toNat with
    | none => return (.ok .idle, m.halt)
    | some record => do
      match ← (decode record).run with
      | .error error => return (.error (.decode error), m)
      | .ok coded =>
        let m := m.note record
        match ← (execute m.hart coded).run with
        | .error fault => return (.error (.fault record.line fault), m)
        | .ok hart =>
          let left := !hart.halted && decide (program.size ≤ hart.pc.toNat)
          return (.ok .executed, { m with hart := if left then hart.halt else hart })

/-- A hart that has halted may as well be halted again. -/
theorem halt_of_left (hart : Hart) (left : Bool) :
    (if !hart.halted && left then hart.halt else hart) = if left then hart.halt else hart := by
  cases left with
  | false => simp
  | true =>
    cases halted : hart.halted with
    | false => rfl
    | true =>
      show hart = { hart with halted := true }
      rw [← halted]

/-- **A step never aborts**, whatever the records of the program are. -/
theorem step_eq (program : Program) (m : Machine) : step program m = .ok (m.step program) := by
  unfold step Machine.step
  split
  · rfl
  · cases program.record? m.hart.pc.toNat with
    | none => rfl
    | some record =>
      simp only [decode_eq, run_done, ok_bind]
      cases record.decode with
      | error error => rfl
      | ok i =>
        simp only [Except.map, execute_coded, run_done, ok_bind, Instruction.execute]
        cases i.effect (m.note record).hart with
        | error fault => rfl
        | ok effect =>
          simp only [halt_of_left, Machine.apply, decide_eq_true_eq]
          rfl

/-! ## 2. Runs -/

/-- Steps until the machine has halted, while the budget lasts. The instructions executed are
    counted in 64 bits. -/
def runWithin (program : Program) (executed : Nat) :
    Nat → Machine → Except Abort (Except MachineError Nat × Machine)
  | 0, m =>
    return if m.hart.halted then (.ok executed, m) else (.error (.stepLimit m.maxSteps), m)
  | budget + 1, m =>
    if m.hart.halted then return (.ok executed, m)
    else do
      match ← step program m with
      | (.ok .executed, m) =>
        let executed ← unsigned 64 (executed + 1 : Nat)
        runWithin program executed budget m
      | (.ok .idle, m) => return (.ok executed, m)
      | (.error error, m) => return (.error error, m)

/-- Steps until the machine has halted; the number of instructions executed. -/
def run (program : Program) (m : Machine) : Except Abort (Except MachineError Nat × Machine) :=
  runWithin program 0 m.maxSteps m

/-- **A run never aborts** if what it has counted and may still count is a number of 64 bits. -/
theorem runWithin_eq (program : Program) {executed budget : Nat} (m : Machine)
    (limit : executed + budget < 2 ^ 64) :
    runWithin program executed budget m = .ok (m.runWithin program executed budget) := by
  induction budget generalizing executed m with
  | zero =>
    unfold runWithin Machine.runWithin
    split <;> rfl
  | succ budget ih =>
    unfold runWithin Machine.runWithin
    split
    · rfl
    · rw [step_eq, ok_bind]
      rcases m.step program with ⟨error | ⟨_ | _⟩, after⟩
      · rfl
      · have next : executed + 1 < 2 ^ 64 := by omega
        show (unsigned 64 (executed + 1 : Nat) >>= fun n => runWithin program n budget after) = _
        rw [unsigned_natCast next, ok_bind]
        exact ih after (by omega)
      · rfl

theorem run_eq (program : Program) {m : Machine} (limit : m.maxSteps < 2 ^ 64) :
    run program m = .ok (m.run program) :=
  runWithin_eq program m (by rwa [Nat.zero_add])

/-! ## 3. Restoring -/

/-- The hart with values written to registers, from an index on. -/
def restoreRegisters (h : Hart) (index : Nat) : List Word → Except Abort Hart
  | [] => .ok h
  | value :: values => do
    let h ← writeRegister h (BitVec.ofNat 8 index) value
    restoreRegisters h (index + 1) values

/-- The memory with cells written one after the other. -/
def writeCells (m : Memory) : List Cell → Guarded SnapshotError Memory
  | [] => return m
  | cell :: cells => do
    let m' ← (write m .byte cell.address (cell.value.setWidth 32)).adapt
      fun _ => .addressOutOfRange cell.address m.size
    writeCells m' cells

/-- The hart of a snapshot, with a memory of the given size. -/
def restore (s : Snapshot) (memorySize : Nat) : Guarded SnapshotError Hart := do
  if s.registers.length ≠ 32 then throw (.registerCount s.registers.length)
  let h ← restoreRegisters (.zero memorySize) 0 s.registers
  let memory ← writeCells h.memory s.memory
  return { h with memory, pc := s.pc, halted := s.halted }

/-- **Registers that are no more than 32 are all written**, but for register 0. -/
theorem restoreRegisters_eq (h : Hart) (index : Nat) (values : List Word)
    (fits : index + values.length ≤ 32) :
    ∃ regs, restoreRegisters h index values = .ok { h with regs } ∧
      ∀ r : Reg, regs.get r =
        if r ≠ 0 ∧ index ≤ r.val then values[r.val - index]?.getD (h.reg r) else h.reg r := by
  induction values generalizing h index with
  | nil => exact ⟨h.regs, rfl, fun r => by split <;> rfl⟩
  | cons value values ih =>
    rw [List.length_cons] at fits
    have lt : index < 32 := by omega
    have here : writeRegister h (BitVec.ofNat 8 index) value = .ok (h.setReg ⟨index, lt⟩ value) :=
      writeRegister_toByte h ⟨index, lt⟩ value
    obtain ⟨regs, restored, each⟩ := ih (h.setReg ⟨index, lt⟩ value) (index + 1) (by omega)
    refine ⟨regs, ?_, fun r => ?_⟩
    · rw [restoreRegisters, here, ok_bind, restored]
      unfold Hart.setReg
      split <;> rfl
    · rw [each, Hart.reg_setReg]
      by_cases zero : r = 0
      · simp only [zero, ne_eq, not_true_eq_false, false_and, and_false, if_false]
      · have later : index + 1 ≤ r.val → r.val - index = r.val - (index + 1) + 1 := by omega
        rcases Nat.lt_trichotomy r.val index with below | first | above
        · have ne : r ≠ ⟨index, lt⟩ := fun e => Nat.ne_of_lt below (congrArg Fin.val e)
          simp [zero, ne, Nat.not_le_of_lt below, Nat.not_le_of_lt (Nat.lt_succ_of_lt below)]
        · have same : r = ⟨index, lt⟩ := Fin.ext first
          subst same
          simp only [zero, Nat.not_succ_le_self, Nat.le_refl, Nat.sub_self, List.getElem?_cons_zero,
            Option.getD_some, ne_eq, not_false_eq_true, and_self, and_false, if_true, if_false]
        · have ne : r ≠ ⟨index, lt⟩ := fun e => Nat.ne_of_gt above (congrArg Fin.val e)
          simp [zero, ne, later above, Nat.le_of_lt above, Nat.succ_le_of_lt above]

theorem fault?_byte (m : Memory) (addr : Word) :
    m.fault? .byte addr =
      if addr.toNat < m.size then none else some (.outOfBounds addr .byte m.size) := by
  have aligned : addr.toNat % 1 = 0 := Nat.mod_one _
  unfold Memory.fault?
  simp only [Width.bytes, aligned, ne_eq, not_true_eq_false, if_false, Nat.lt_succ_iff]
  by_cases inside : addr.toNat < m.size
  · rw [if_pos inside, if_neg (Nat.not_le_of_lt inside)]
  · rw [if_neg inside, if_pos (Nat.le_of_not_lt inside)]

theorem writeCells_eq (m : Memory) (cells : List Cell) :
    writeCells m cells = done (Snapshot.writeCells m cells) := by
  induction cells generalizing m with
  | nil => rfl
  | cons cell cells ih =>
    have byte : BitVec.ofNat 8 (cell.value.setWidth 32).toNat = cell.value := by
      rw [BitVec.ofNat_toNat, BitVec.setWidth_setWidth_of_le _ (by decide), BitVec.setWidth_eq]
    unfold writeCells Snapshot.writeCells
    rw [write_eq, adapt_done, Memory.store, fault?_byte]
    by_cases inside : cell.address.toNat < m.size
    · simp only [inside, if_true, ih]
      show done (Snapshot.writeCells (m.setByte _ (BitVec.ofNat 8 _)) cells) = _
      rw [byte]
    · simp only [inside, if_false]
      rfl

/-- **A snapshot from anywhere is restored or refused.** -/
theorem restore_eq (s : Snapshot) (memorySize : Nat) :
    restore s memorySize = done (s.restore memorySize) := by
  unfold restore Snapshot.restore
  by_cases count : s.registers.length = 32
  · obtain ⟨regs, restored, each⟩ :=
      restoreRegisters_eq (.zero memorySize) 0 s.registers (by omega)
    have same : regs = (Vector.mk s.registers.toArray (by simpa using count)).set 0 0 := by
      apply Vector.ext
      intro i lt
      have here : regs[i] = _ := each ⟨i, lt⟩
      rw [here, Vector.getElem_set]
      by_cases zero : i = 0
      · subst zero
        rfl
      · have ne : (⟨i, lt⟩ : Reg) ≠ 0 := fun e => zero (congrArg Fin.val e)
        simp [ne, Ne.symm zero, count, lt]
    simp only [count, restored, writeCells_eq, lift_ok, pure_bind, dif_pos, ne_eq,
      not_true_eq_false, if_false, same, done_bind, done_pure]
    rfl
  · rw [if_pos count, dif_neg count]
    rfl

end Rv32i.Checked
