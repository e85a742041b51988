import Rv32i.Proofs.Assembly.Decoded
import Rv32i.Proofs.Machine.Attempt

/-!
# Machines with more memory

Addresses wrap at 32 bits and not at the size of memory, and of all that a machine does only the
bounds check of an access looks at the size. So a machine with more memory does the same, until an
access is refused because it is out of bounds.

* `Memory.Continued`: a memory holds the bytes of another one and behind them those of a third;
  a granted access finds and leaves it so;
* `Hart.Continued`: so do two harts that are the same otherwise. `Instruction.effect_continued` says
  that an instruction has the same effect on both, and `Hart.Continued.apply` what that leaves;
* `Machine.step_continued` is the step, `Machine.runWithin_continued` the run.

The main statement is `run_with_more_memory`.
-/

namespace Rv32i

/-! ## 1. Memories -/

namespace Memory

/-- **A memory continued by another**: `large` is as large as `rest` and holds the bytes of `m`
    first, then those of `rest`. -/
structure Continued (m rest large : Memory) : Prop where
  le : m.size ≤ rest.size
  size : large.size = rest.size
  byte : ∀ a, large.byte a = if a < m.size then m.byte a else rest.byte a

variable {m rest large : Memory}

theorem Continued.inside (c : m.Continued rest large) {a : Nat} (lt : a < m.size) :
    large.byte a = m.byte a :=
  (c.byte a).trans (if_pos lt)

theorem Continued.outside (c : m.Continued rest large) {a : Nat} (le : m.size ≤ a) :
    large.byte a = rest.byte a :=
  (c.byte a).trans (if_neg (Nat.not_lt_of_le le))

/-- A memory that agrees with another one on its bytes continues it. -/
theorem continued_self (le : m.size ≤ large.size)
    (agree : ∀ a < m.size, large.byte a = m.byte a) : m.Continued large large where
  le := le
  size := rfl
  byte a := by
    split
    · rename_i lt
      exact agree a lt
    · rfl

/-- **The larger memory refuses an access for the same reason**, unless it is out of bounds of the
    smaller one. That it is misaligned is said first. -/
theorem Continued.fault? (c : m.Continued rest large) {width : Width} {addr : Word}
    (inside : ∀ size, m.fault? width addr ≠ some (.outOfBounds addr width size)) :
    large.fault? width addr = m.fault? width addr := by
  unfold Memory.fault? at inside ⊢
  by_cases misaligned : addr.toNat % width.bytes ≠ 0
  · rw [if_pos misaligned, if_pos misaligned]
  · rw [if_neg misaligned] at inside ⊢
    rw [if_neg misaligned]
    by_cases outside : m.size < addr.toNat + width.bytes
    · rw [if_pos outside] at inside
      exact absurd rfl (inside m.size)
    · have le := c.le
      have size := c.size
      have further : ¬ large.size < addr.toNat + width.bytes := by omega
      rw [if_neg outside, if_neg further]

/-- Equal bytes are an equal number. -/
theorem peekNat_congr {addr n : Nat} (agree : ∀ a, addr ≤ a → a < addr + n →
    large.byte a = m.byte a) : large.peekNat addr n = m.peekNat addr n := by
  induction n generalizing addr with
  | zero => rfl
  | succ n ih =>
    have first := agree addr (Nat.le_refl _) (by omega)
    have behind := @ih (addr + 1) fun a le lt => agree a (by omega) (by omega)
    rw [peekNat, peekNat, first, behind]

/-- A granted access reads the same value from both memories. -/
theorem Continued.peek (c : m.Continued rest large) {width : Width} {addr : Word}
    (granted : m.fault? width addr = none) :
    large.peek width addr.toNat = m.peek width addr.toNat := by
  have inside := (fault?_eq_none_iff.mp granted).2
  have same : large.peekNat addr.toNat width.bytes = m.peekNat addr.toNat width.bytes :=
    peekNat_congr fun a _ lt => c.inside (by omega)
  rw [Memory.peek, Memory.peek, same]

/-- **A granted access writes inside the smaller memory only**: what is behind it stays. -/
theorem Continued.poke (c : m.Continued rest large) {width : Width} {addr : Word}
    (granted : m.fault? width addr = none) (value : Word) :
    (m.poke width addr.toNat value).Continued rest (large.poke width addr.toNat value) where
  le := Nat.le_trans (Nat.le_of_eq (size_poke ..)) c.le
  size := (size_poke ..).trans c.size
  byte a := by
    have inside := (fault?_eq_none_iff.mp granted).2
    have le := c.le
    have size := c.size
    rw [byte_poke, byte_poke, size_poke, c.byte]
    by_cases lt : a < m.size
    · have both : (addr.toNat ≤ a ∧ a < addr.toNat + width.bytes ∧ a < large.size) ↔
          (addr.toNat ≤ a ∧ a < addr.toNat + width.bytes ∧ a < m.size) := by omega
      simp only [both, lt, if_true]
    · have behind : ¬ (addr.toNat ≤ a ∧ a < addr.toNat + width.bytes ∧ a < large.size) := by omega
      rw [if_neg behind, if_neg lt, if_neg lt]

end Memory

/-! ## 2. Harts -/

/-- **A hart with more memory**: it agrees with `h` on everything else. -/
structure Hart.Continued (h : Hart) (rest : Memory) (large : Hart) : Prop where
  regs : large.regs = h.regs
  pc : large.pc = h.pc
  halted : large.halted = h.halted
  memory : h.memory.Continued rest large.memory

section

variable {h large : Hart} {rest : Memory}

theorem Hart.Continued.eq_with (c : h.Continued rest large) :
    large = { h with memory := large.memory } := by
  obtain ⟨regs, memory, pc, halted⟩ := large
  obtain ⟨rfl, rfl, rfl, -⟩ := c
  rfl

/-- **An instruction has the same effect with more memory**, or the same fault, unless that is an
    access out of bounds. -/
theorem Instruction.effect_continued (c : h.Continued rest large) (i : Instruction)
    (inside : ∀ addr width size, i.effect h ≠ .error (.access (.outOfBounds addr width size))) :
    i.effect large = i.effect h := by
  have more := c.memory
  rw [c.eq_with]
  -- only loads and stores look at memory
  cases i with
  | load o rd rs1 offset =>
    have bounds (size : Nat) : h.memory.fault? o.width (h.reg rs1 + offset) ≠
        some (.outOfBounds (h.reg rs1 + offset) o.width size) := by
      intro refused
      refine inside (h.reg rs1 + offset) o.width size ?_
      simp only [effect, Memory.load, refused]
    have same : large.memory.load o.width (h.reg rs1 + offset) =
        h.memory.load o.width (h.reg rs1 + offset) := by
      rw [Memory.load, Memory.load, more.fault? bounds]
      cases granted : h.memory.fault? o.width (h.reg rs1 + offset) with
      | some fault => rfl
      | none => exact congrArg Except.ok (more.peek granted)
    have address : ({ h with memory := large.memory } : Hart).reg rs1 = h.reg rs1 := rfl
    simp only [effect, address, same]
    rfl
  | store width rs1 rs2 offset =>
    have bounds (size : Nat) : h.memory.fault? width (h.reg rs1 + offset) ≠
        some (.outOfBounds (h.reg rs1 + offset) width size) := by
      intro refused
      refine inside (h.reg rs1 + offset) width size ?_
      simp only [effect, refused]
    have address : ({ h with memory := large.memory } : Hart).reg rs1 = h.reg rs1 := rfl
    simp only [effect, address, more.fault? bounds]
    rfl
  | _ => rfl

theorem Hart.Continued.setReg (c : h.Continued rest large) (r : Reg) (value : Word) :
    (h.setReg r value).Continued rest (large.setReg r value) := by
  unfold Hart.setReg
  split
  · exact c
  · exact ⟨congrArg (·.set r value r.val_lt) c.regs, c.pc, c.halted, c.memory⟩

theorem Hart.Continued.halt (c : h.Continued rest large) : h.halt.Continued rest large.halt :=
  ⟨c.regs, c.pc, rfl, c.memory⟩

/-- **An effect leaves the harts continued** as they were. -/
theorem Hart.Continued.apply (c : h.Continued rest large) {i : Instruction} {e : Effect}
    (effect : i.effect h = .ok e) : (h.apply e).Continued rest (large.apply e) := by
  cases e with
  | write rd value next =>
    have written := c.setReg rd value
    exact ⟨written.regs, rfl, written.halted, written.memory⟩
  | store width addr value =>
    have granted := Instruction.fault?_of_store_effect effect
    exact ⟨c.regs, congrArg (· + 1) c.pc, c.halted, c.memory.poke granted value⟩
  | goto next => exact ⟨c.regs, rfl, c.halted, c.memory⟩
  | halt => exact c.halt

end

/-! ## 3. Steps and runs -/

namespace Machine

variable {program : Program} {m n : Machine} {rest : Memory}

theorem apply_continued (c : m.hart.Continued rest n.hart) {i : Instruction} {e : Effect}
    (effect : i.effect m.hart = .ok e) :
    (m.apply program e).hart.Continued rest (n.apply program e).hart := by
  have after := c.apply effect
  unfold apply
  dsimp only
  rw [after.pc]
  split
  · exact after.halt
  · exact after

/-- **A step with more memory** has the same outcome, unless that is an access out of bounds. -/
theorem step_continued (program : Program) (c : m.hart.Continued rest n.hart)
    (inside : ∀ line addr width size,
      (m.step program).1 ≠ .error (.fault line (.access (.outOfBounds addr width size)))) :
    (n.step program).1 = (m.step program).1 ∧
      (m.step program).2.hart.Continued rest (n.step program).2.hart := by
  unfold step at inside ⊢
  rw [c.halted, c.pc]
  split
  · exact ⟨rfl, c⟩
  · rename_i running
    rw [if_neg running] at inside
    split
    · exact ⟨rfl, c.halt⟩
    · rename_i record fetch
      rw [fetch] at inside
      dsimp only at inside
      split
      · exact ⟨rfl, c⟩
      · rename_i i decode
        rw [decode] at inside
        have notedSmall : (m.note record).hart = m.hart := rfl
        have notedLarge : (n.note record).hart = n.hart := rfl
        simp only [notedSmall, notedLarge] at inside ⊢
        have same : i.effect n.hart = i.effect m.hart := by
          refine Instruction.effect_continued c i fun addr width size refused => ?_
          refine inside record.line addr width size ?_
          rw [refused]
        rw [same]
        split
        · exact ⟨rfl, c⟩
        · rename_i e effect
          exact ⟨rfl, apply_continued (m := m.note record) (n := n.note record) c effect⟩

/-- **A run with more memory** has the same outcome, unless that is an access out of bounds: its
    steps are these as long as none fails. -/
theorem runWithin_continued (c : m.hart.Continued rest n.hart) (limit : n.maxSteps = m.maxSteps)
    {executed budget : Nat}
    (inside : ∀ line addr width size, (m.runWithin program executed budget).1 ≠
      .error (.fault line (.access (.outOfBounds addr width size)))) :
    (n.runWithin program executed budget).1 = (m.runWithin program executed budget).1 ∧
      (m.runWithin program executed budget).2.hart.Continued rest
        (n.runWithin program executed budget).2.hart := by
  induction budget generalizing m n executed with
  | zero =>
    rw [runWithin, runWithin, c.halted, limit]
    split
    · exact ⟨rfl, c⟩
    · exact ⟨rfl, c⟩
  | succ budget ih =>
    rw [runWithin] at inside ⊢
    rw [runWithin, c.halted]
    split
    · exact ⟨rfl, c⟩
    · rename_i running
      rw [if_neg running] at inside
      rcases small : m.step program with ⟨result, m'⟩
      rcases more : n.step program with ⟨result', n'⟩
      rw [small] at inside
      have stepped := step_continued program c fun line addr width size failed => by
        rw [small] at failed
        subst failed
        exact inside line addr width size rfl
      rw [small, more] at stepped
      obtain ⟨rfl, after⟩ := stepped
      have limits : n'.maxSteps = m'.maxSteps :=
        (Attempt.of_step more).maxSteps.trans (limit.trans (Attempt.of_step small).maxSteps.symm)
      rcases result' with error | outcome
      · exact ⟨rfl, after⟩
      · cases outcome with
        | executed => exact ih after limits inside
        | idle => exact ⟨rfl, after⟩

end Machine

/-- **More memory changes nothing but faults out of bounds.** Of two machines that agree on
    registers, program counter, halting and the bytes of the smaller memory, with the same limit,
    let the one with the smaller memory run to any end but an access out of bounds. Then the other
    one comes to the same end, and they agree as before. What it holds behind the smaller memory is
    as it was. -/
theorem run_with_more_memory (program : Program) {m n : Machine}
    (limit : n.maxSteps = m.maxSteps) (regs : n.hart.regs = m.hart.regs)
    (pc : n.hart.pc = m.hart.pc) (halted : n.hart.halted = m.hart.halted)
    (size : m.hart.memory.size ≤ n.hart.memory.size)
    (bytes : ∀ a < m.hart.memory.size, n.hart.memory.byte a = m.hart.memory.byte a)
    (inside : ∀ line addr width size, (m.run program).1 ≠
      .error (.fault line (.access (.outOfBounds addr width size)))) :
    (n.run program).1 = (m.run program).1 ∧
      (n.run program).2.hart.regs = (m.run program).2.hart.regs ∧
      (n.run program).2.hart.pc = (m.run program).2.hart.pc ∧
      (n.run program).2.hart.halted = (m.run program).2.hart.halted ∧
      (n.run program).2.hart.memory.size = n.hart.memory.size ∧
      (∀ a < m.hart.memory.size,
        (n.run program).2.hart.memory.byte a = (m.run program).2.hart.memory.byte a) ∧
      ∀ a, m.hart.memory.size ≤ a →
        (n.run program).2.hart.memory.byte a = n.hart.memory.byte a := by
  have start : m.hart.Continued n.hart.memory n.hart :=
    ⟨regs, pc, halted, Memory.continued_self size bytes⟩
  have kept : (m.run program).2.hart.memory.size = m.hart.memory.size :=
    @Machine.runWithin_preserves program (fun l => l.hart.memory.size = m.hart.memory.size)
      (fun same attempt => attempt.size.trans same) m rfl 0 m.maxSteps
  have sameRun : n.run program = n.runWithin program 0 m.maxSteps := by rw [Machine.run, limit]
  obtain ⟨result, after⟩ := Machine.runWithin_continued start limit inside
  rw [← sameRun] at result after
  refine ⟨result, after.regs, after.pc, after.halted, after.memory.size, fun a lt => ?_,
    fun a le => ?_⟩
  · exact after.memory.inside (Nat.lt_of_lt_of_eq lt kept.symm)
  · exact after.memory.outside (Nat.le_trans (Nat.le_of_eq kept) le)

/-- A word is stored at the end of eight bytes and half of it loaded again; the last load is
    misaligned, and out of bounds besides. With sixteen bytes, one of them set behind the eight, the
    run ends with the same fault. -/
theorem run_with_more_memory_misaligned :
    let program := Program.ofRecords #[
      { opcode := .addi, format := .i, index := 0, line := 1, source := "addi x1, x0, -2",
        rd := some 1, rs1 := some 0, imm := some (-2) },
      { opcode := .sw, format := .s, index := 1, line := 2, source := "sw x1, 4(x0)",
        rs1 := some 0, rs2 := some 1, imm := some 4 },
      { opcode := .lhu, format := .il, index := 2, line := 3, source := "lhu x2, 6(x0)",
        rd := some 2, rs1 := some 0, imm := some 6 },
      { opcode := .lw, format := .il, index := 3, line := 4, source := "lw x3, 9(x0)",
        rd := some 3, rs1 := some 0, imm := some 9 }]
    let large : Hart := { Hart.zero 16 with memory := (Memory.zero 16).setByte 12 7 }
    let small := Machine.new ⟨8, 9, 0⟩
    let more := Machine.withHart ⟨16, 9, 0⟩ large
    (small.run program).1 = .error (.fault 4 (.access (.misaligned 9 .word))) ∧
      (more.run program).1 = .error (.fault 4 (.access (.misaligned 9 .word))) ∧
      (more.run program).2.hart.reg 2 = 65535 ∧
      (more.run program).2.hart.memory.byte 12 = 7 := by
  intro program large small more
  have fails : (small.run program).1 = .error (.fault 4 (.access (.misaligned 9 .word))) :=
    eq_error_of_errorOf? (by decide +kernel)
  have bytes : ∀ a < 8, large.memory.byte a = (Memory.zero 8).byte a := by decide +kernel
  obtain ⟨result, regs, -, -, -, -, behind⟩ :=
    @run_with_more_memory program small more rfl rfl rfl rfl (by decide) bytes
      fun line addr width size => by rw [fails]; exact nofun
  refine ⟨fails, result.trans fails, ?_, ?_⟩
  · rw [Hart.reg, regs]
    decide +kernel
  · rw [behind 12 (by decide)]
    decide +kernel

end Rv32i
