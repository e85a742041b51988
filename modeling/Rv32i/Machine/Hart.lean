import Rv32i.Machine.Memory

/-!
# The hart

A hart is one hardware thread: 32 registers, memory, a program counter and the mark that it has
halted. The program counter counts instruction slots; slot `n` lies at byte address `4 * n`.
Register 0 reads as zero because writes to it are dropped.
-/

namespace Rv32i

/-- The state of a hart. -/
structure Hart where
  regs : Vector Word 32
  memory : Memory
  /-- The slot of the next instruction. -/
  pc : Word
  halted : Bool
deriving DecidableEq

namespace Hart

/-- The zeroed state with a memory of a size. -/
def zero (memorySize : Nat) : Hart :=
  ⟨Vector.replicate 32 0, .zero memorySize, 0, false⟩

/-- The value of a register. -/
def reg (h : Hart) (r : Reg) : Word :=
  h.regs.get r

/-- The hart after a write to a register. -/
def setReg (h : Hart) (r : Reg) (value : Word) : Hart :=
  if r = 0 then h else { h with regs := h.regs.set r value r.val_lt }

/-- The zeroed state with as much memory. -/
def reset (h : Hart) : Hart :=
  ⟨Vector.replicate 32 0, h.memory.clear, 0, false⟩

/-- The slot after the current one. -/
@[inline] def nextSlot (h : Hart) : Word :=
  h.pc + 1

/-- The byte address of a slot. -/
def slotAddress (slot : Word) : Word :=
  slot * 4

/-- The byte address of the current slot. -/
def pcAddress (h : Hart) : Word :=
  slotAddress h.pc

/-- The byte address of the slot after the current one, which jumps leave as a link. -/
def linkAddress (h : Hart) : Word :=
  slotAddress h.nextSlot

/-- The hart after moving to the next slot. -/
def advance (h : Hart) : Hart :=
  { h with pc := h.nextSlot }

/-- The hart, halted. -/
def halt (h : Hart) : Hart :=
  { h with halted := true }

theorem reg_eq_getElem (h : Hart) (r : Reg) : h.reg r = getElem h.regs r.val r.val_lt :=
  rfl

/-- **A write changes one register**, and none if it is register 0. -/
theorem reg_setReg (h : Hart) (r : Reg) (value : Word) (r' : Reg) :
    (h.setReg r value).reg r' = if r' = r ∧ r' ≠ 0 then value else h.reg r' := by
  rw [reg_eq_getElem, reg_eq_getElem]
  unfold setReg
  by_cases zero : r = 0
  · have : ¬ (r' = r ∧ r' ≠ 0) := fun ⟨e, ne⟩ => ne (e.trans zero)
    rw [if_pos zero, if_neg this]
  · rw [if_neg zero]
    by_cases e : r' = r
    · subst e
      simp [zero]
    · have ne : r.val ≠ r'.val := fun v => e (Fin.ext v.symm)
      simp [e, ne]

@[simp] theorem memory_setReg (h : Hart) (r : Reg) (value : Word) :
    (h.setReg r value).memory = h.memory := by
  unfold setReg
  split <;> rfl

@[simp] theorem halted_setReg (h : Hart) (r : Reg) (value : Word) :
    (h.setReg r value).halted = h.halted := by
  unfold setReg
  split <;> rfl

end Hart

end Rv32i
