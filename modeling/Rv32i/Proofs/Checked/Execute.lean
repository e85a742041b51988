import Rv32i.Proofs.Assembly.Forms
import Rv32i.Proofs.Assembly.Placement
import Rv32i.Proofs.Checked.Decode
import Rv32i.Proofs.Machine.HartInvariant

/-!
# Execution with arrays

Registers are indexed with the bytes of a decoded instruction, memory with addresses, and offsets
are machine integers.

* `Checked.read_eq`, `Checked.write_eq`: the test of an access covers every byte that is then
  indexed, whatever the address;
* `Checked.relativeTarget_eq`: a jump target is computed in 64 bits, where it fits;
* `execute_coded`: executing what decoding returns never aborts, on any hart.
-/

namespace Rv32i

namespace Checked

/-! ## 1. Registers -/

/-- The value of the register with an index. -/
def readRegister (h : Hart) (index : Byte) : Except Abort Word :=
  indexed h.regs index.toNat

/-- The hart after a write to the register with an index. A write to register 0 is dropped before
    the array is indexed. -/
def writeRegister (h : Hart) (index : Byte) (value : Word) : Except Abort Hart :=
  if index = 0 then .ok h
  else if lt : index.toNat < 32 then .ok { h with regs := h.regs.set index.toNat value lt }
  else .error .index

/-- **The array of registers has its bounds**: an index is read exactly if it is below 32. -/
theorem readRegister_eq_ok_iff (h : Hart) (index : Byte) :
    (∃ value, readRegister h index = .ok value) ↔ index.toNat < 32 := by
  unfold readRegister indexed
  constructor
  · intro ⟨value, read⟩
    split at read
    · assumption
    · cases read
  · exact fun lt => ⟨_, dif_pos lt⟩

theorem readRegister_toByte (h : Hart) (r : Reg) : readRegister h r.toByte = .ok (h.reg r) := by
  have index : r.toByte.toNat = r.val := Reg.toNat_toByte r
  have lt : r.toByte.toNat < 32 := index ▸ r.isLt
  rw [readRegister, indexed_of_lt h.regs lt]
  simp only [index]
  rfl

theorem writeRegister_toByte (h : Hart) (r : Reg) (value : Word) :
    writeRegister h r.toByte value = .ok (h.setReg r value) := by
  have index : r.toByte.toNat = r.val := Reg.toNat_toByte r
  have lt : r.toByte.toNat < 32 := index ▸ r.isLt
  have zero : r.toByte = 0 ↔ r = 0 := by
    rw [← BitVec.toNat_inj, index, Fin.ext_iff]
    rfl
  unfold writeRegister Hart.setReg
  simp only [zero, index, r.isLt, dif_pos]
  split <;> rfl

/-! ## 2. Memory -/

/-- The index of the first byte of an access, which must be aligned and lie in the memory. -/
def check (m : Memory) (width : Width) (addr : Word) : Guarded AccessFault Nat := do
  if 1 < width.bytes then
    let rest ← unsignedRemainder addr.toNat width.bytes
    if rest ≠ 0 then throw (.misaligned addr width)
  let last ← unsigned 64 (addr.toNat + width.bytes : Nat)
  if m.size < last then throw (.outOfBounds addr width m.size)
  return addr.toNat

/-- The byte at an index. -/
def byteAt (m : Memory) (i : Nat) : Except Abort Byte :=
  if i < m.size then .ok (m.byte i) else .error .index

/-- The bytes from an index on, one after the other. -/
def bytesFrom (m : Memory) (first count : Nat) : Except Abort (List Byte) :=
  (List.range count).mapM fun k : Nat => do byteAt m (← unsigned 64 (first + k : Nat))

/-- The number that bytes stand for, the lowest one first. -/
def ofBytes : List Byte → Nat
  | [] => 0
  | b :: bs => b.toNat + 256 * ofBytes bs

/-- The bytes of a number, the lowest one first. -/
def toBytes (value : Nat) : Nat → List Byte
  | 0 => []
  | n + 1 => BitVec.ofNat 8 value :: toBytes (value / 256) n

/-- The memory with bytes from an index on. -/
def setBytes (m : Memory) (first : Nat) : List Byte → Memory
  | [] => m
  | b :: bs => setBytes (m.setByte first b) (first + 1) bs

/-- The memory with bytes copied into a range. -/
def copy (m : Memory) (first last : Nat) (bytes : List Byte) : Except Abort Memory :=
  if ¬ (first ≤ last ∧ last ≤ m.size) then .error .index
  else if bytes.length ≠ last - first then .error .length
  else .ok (setBytes m first bytes)

/-- The zero-extended value at an address. -/
def read (m : Memory) (width : Width) (addr : Word) : Guarded AccessFault Word := do
  let first ← check m width addr
  let bytes ← bytesFrom m first width.bytes
  return BitVec.ofNat 32 (ofBytes bytes)

/-- The memory with the low bytes of a word stored at an address. -/
def write (m : Memory) (width : Width) (addr value : Word) : Guarded AccessFault Memory := do
  let first ← check m width addr
  let last ← unsigned 64 (first + width.bytes : Nat)
  copy m first last (toBytes value.toNat width.bytes)

theorem access_lt (addr : Word) (width : Width) : addr.toNat + width.bytes < 2 ^ 64 := by
  have short : width.bytes ≤ 4 := by cases width <;> decide
  have word := addr.isLt
  omega

/-- **The test of an access** comes through, and grants what the memory grants. -/
theorem check_eq (m : Memory) (width : Width) (addr : Word) :
    check m width addr = done (match m.fault? width addr with
      | some fault => .error fault
      | none => .ok addr.toNat) := by
  have wide : 1 < width.bytes ∨ addr.toNat % width.bytes = 0 := by
    cases width
    · exact .inr (Nat.mod_one _)
    · exact .inl (by decide)
    · exact .inl (by decide)
  have rest : unsignedRemainder addr.toNat width.bytes = .ok (addr.toNat % width.bytes) :=
    if_neg (by cases width <;> decide)
  unfold check Memory.fault?
  simp only [rest, unsigned_natCast (access_lt addr width), lift_ok, pure_bind]
  by_cases aligned : addr.toNat % width.bytes = 0
  · simp only [aligned, ne_eq, not_true_eq_false, if_false]
    split <;> by_cases outside : m.size < addr.toNat + width.bytes <;> simp [outside]
  · simp only [wide.resolve_right aligned, aligned, if_true, ne_eq, not_false_eq_true]
    rfl

/-- Bytes that lie in the memory are all there. -/
theorem bytesFrom_eq {m : Memory} {first count : Nat} (inside : first + count ≤ m.size)
    (small : first + count < 2 ^ 64) :
    bytesFrom m first count = .ok ((List.range count).map fun k => m.byte (first + k)) := by
  rw [bytesFrom, mapM_eq_ok_iff, List.map_map]
  refine List.map_congr_left fun k mem => ?_
  have lt : k < count := List.mem_range.mp mem
  rw [unsigned_natCast (show first + k < 2 ^ 64 by omega), ok_bind]
  exact if_pos (by omega)

theorem ofBytes_eq_peekNat (m : Memory) (first count : Nat) :
    ofBytes ((List.range count).map fun k => m.byte (first + k)) = m.peekNat first count := by
  induction count generalizing first with
  | zero => rfl
  | succ count ih =>
    have later : ∀ k, m.byte (first + (k + 1)) = m.byte (first + 1 + k) := fun k => by
      rw [Nat.add_assoc first 1, Nat.add_comm 1]
    rw [List.range_succ_eq_map, List.map_cons, List.map_map, ofBytes, Memory.peekNat, ← ih]
    simp only [Function.comp_def, Nat.succ_eq_add_one, later, Nat.add_zero]

theorem setBytes_toBytes (m : Memory) (first value count : Nat) :
    setBytes m first (toBytes value count) = m.pokeNat first value count := by
  induction count generalizing m first value with
  | zero => rfl
  | succ count ih => exact ih ..

theorem length_toBytes (value count : Nat) : (toBytes value count).length = count := by
  induction count generalizing value with
  | zero => rfl
  | succ count ih => exact congrArg (· + 1) (ih _)

/-- A range of the memory takes as many bytes as it is long. -/
theorem copy_eq {m : Memory} {first count : Nat} {bytes : List Byte} (length : bytes.length = count)
    (inside : first + count ≤ m.size) :
    copy m first (first + count) bytes = .ok (setBytes m first bytes) := by
  have fits : bytes.length = first + count - first := by omega
  rw [copy, if_neg (not_not_intro ⟨Nat.le_add_right .., inside⟩), if_neg (not_not_intro fits)]

/-- **What is read is the value**, and every byte of it is indexed inside the memory. -/
theorem read_eq (m : Memory) (width : Width) (addr : Word) :
    read m width addr = done (m.load width addr) := by
  unfold read Memory.load
  rw [check_eq]
  cases granted : m.fault? width addr with
  | some fault => rfl
  | none =>
    obtain ⟨-, inside⟩ := Memory.fault?_eq_none_iff.mp granted
    simp only [bytesFrom_eq inside (access_lt addr width), ofBytes_eq_peekNat, done_ok, pure_bind,
      lift_ok]
    rfl

/-- **What is written is the value**, into a range of the memory that is as long. -/
theorem write_eq (m : Memory) (width : Width) (addr value : Word) :
    write m width addr value = done (m.store width addr value) := by
  unfold write Memory.store
  rw [check_eq]
  cases granted : m.fault? width addr with
  | some fault => rfl
  | none =>
    obtain ⟨-, inside⟩ := Memory.fault?_eq_none_iff.mp granted
    have copied := copy_eq (length_toBytes value.toNat width.bytes) inside
    simp only [unsigned_natCast (access_lt addr width), copied, setBytes_toBytes, done_ok,
      pure_bind, lift_ok]
    rfl

/-! ## 3. Arithmetic -/

/-- A word shifted by the low five bits of an amount. -/
def shiftLow (op : ShiftOp) (w amount : Word) : Except Abort Word :=
  shift op w (amount &&& 0x1F).toNat

/-- The result of a register operation. -/
def alu (op : AluOp) (a b : Word) : Except Abort Word :=
  match op with
  | .sll => shiftLow .sll a b
  | .srl => shiftLow .srl a b
  | .sra => shiftLow .sra a b
  | op => .ok (op.apply a b)

/-- The slot that a byte offset from the current slot leads to. -/
def relativeTarget (h : Hart) (offset : Word) : Guarded Fault Word := do
  let slots ← quotient 32 offset.toInt 4
  let target ← integer 64 ((h.pc.toNat : Int) + slots)
  if target < 0 then throw (.jumpTarget target)
  return BitVec.ofNat 32 (min target.toNat (2 ^ 32 - 1))

theorem shiftLow_eq (op : ShiftOp) (w amount : Word) :
    shiftLow op w amount = .ok (op.apply w (amount.toNat % 32)) := by
  have low : (amount &&& 0x1F).toNat = amount.toNat % 32 := by
    rw [BitVec.toNat_and]
    exact Nat.and_two_pow_sub_one_eq_mod amount.toNat 5
  rw [shiftLow, low]
  exact shift_of_lt op w (Nat.mod_lt _ (by decide))

theorem alu_eq (op : AluOp) (a b : Word) : alu op a b = .ok (op.apply a b) := by
  cases op <;> first | rfl | exact shiftLow_eq ..

/-- A quarter of a signed word is one, and a slot more still an integer of 64 bits. -/
theorem relativeTarget_eq (h : Hart) (offset : Word) :
    relativeTarget h offset = done (h.relativeSlot offset) := by
  have low := BitVec.le_toInt offset
  have high := BitVec.toInt_lt (x := offset)
  have word := h.pc.isLt
  have quarter : (offset.toInt.tdiv 4).natAbs = offset.toInt.natAbs / 4 := Int.natAbs_tdiv ..
  have slots : quotient 32 offset.toInt 4 = .ok (offset.toInt.tdiv 4) := by
    rw [quotient, if_neg (by decide)]
    exact integer_of_mem (by omega) (by omega)
  have target : integer 64 ((h.pc.toNat : Int) + offset.toInt.tdiv 4) =
      .ok (h.pc.toNat + offset.toInt.tdiv 4) :=
    integer_of_mem (by omega) (by omega)
  unfold relativeTarget Hart.relativeSlot
  simp only [slots, target, lift_ok, pure_bind]
  split <;> rfl

/-! ## 4. Instructions -/

/-- The hart after an instruction. A fault comes before anything is written. -/
def execute (h : Hart) : Coded → Guarded Fault Hart
  | .op op rd rs1 rs2 => do
    let value ← alu op (← readRegister h rs1) (← readRegister h rs2)
    return (← writeRegister h rd value).advance
  | .opImm op rd rs1 imm => do
    let value ← alu op.toAluOp (← readRegister h rs1) imm
    return (← writeRegister h rd value).advance
  | .shiftImm op rd rs1 shamt => do
    let value ← shiftLow op (← readRegister h rs1) (shamt.setWidth 32)
    return (← writeRegister h rd value).advance
  | .load op rd rs1 offset => do
    let addr := (← readRegister h rs1) + offset
    let value ← (read h.memory op.width addr).adapt .access
    return (← writeRegister h rd (op.extend value)).advance
  | .store width rs1 rs2 offset => do
    let addr := (← readRegister h rs1) + offset
    let value ← readRegister h rs2
    let memory ← (write h.memory width addr value).adapt .access
    return { h with memory }.advance
  | .branch cond rs1 rs2 offset => do
    if cond.holds (← readRegister h rs1) (← readRegister h rs2) then
      return { h with pc := ← relativeTarget h offset }
    else
      return h.advance
  | .jal rd offset => do
    let target ← relativeTarget h offset
    return { ← writeRegister h rd h.linkAddress with pc := target }
  | .jalr rd rs1 offset => do
    let addr := ((← readRegister h rs1) + offset) &&& ~~~1
    let linked ← writeRegister h rd h.linkAddress
    let slot ← unsignedQuotient addr.toNat 4
    return { linked with pc := BitVec.ofNat 32 slot }
  | .lui rd imm => do
    return (← writeRegister h rd imm).advance
  | .auipc rd imm => do
    return (← writeRegister h rd (h.pcAddress + imm)).advance
  | .halt => return h.halt

/-- **Executing an instruction never aborts**, on any hart and with any operands that its type
    allows. -/
theorem execute_coded (h : Hart) (i : Instruction) : execute h i.coded = done (i.execute h) := by
  cases i with
  | op op rd rs1 rs2 =>
    simp only [Instruction.coded, execute, readRegister_toByte, writeRegister_toByte, alu_eq,
      lift_ok, pure_bind, Hart.advance_setReg]
    rfl
  | opImm op rd rs1 imm =>
    simp only [Instruction.coded, execute, readRegister_toByte, writeRegister_toByte, alu_eq,
      lift_ok, pure_bind, Hart.advance_setReg]
    rfl
  | shiftImm op rd rs1 shamt =>
    have amount : ((BitVec.ofNat 8 shamt).setWidth 32).toNat % 32 = shamt.val := by
      have lt := shamt.isLt
      rw [BitVec.toNat_setWidth, BitVec.toNat_ofNat]
      omega
    simp only [Instruction.coded, execute, readRegister_toByte, writeRegister_toByte, shiftLow_eq,
      lift_ok, pure_bind, Hart.advance_setReg, amount]
    rfl
  | load op rd rs1 offset =>
    simp only [Instruction.coded, execute, readRegister_toByte, writeRegister_toByte, read_eq,
      adapt_done, lift_ok, pure_bind, Hart.advance_setReg]
    simp only [Instruction.execute, Instruction.effect]
    cases h.memory.load op.width (h.reg rs1 + offset) <;> rfl
  | store width rs1 rs2 offset =>
    simp only [Instruction.coded, execute, readRegister_toByte, write_eq, adapt_done, lift_ok,
      pure_bind]
    simp only [Instruction.execute, Instruction.effect, Memory.store]
    cases h.memory.fault? width (h.reg rs1 + offset) <;> rfl
  | branch cond rs1 rs2 offset =>
    simp only [Instruction.coded, execute, readRegister_toByte, relativeTarget_eq, lift_ok,
      pure_bind]
    simp only [Instruction.execute, Instruction.effect]
    split
    · cases h.relativeSlot offset <;> rfl
    · rfl
  | jal rd offset =>
    simp only [Instruction.coded, execute, writeRegister_toByte, relativeTarget_eq, lift_ok,
      pure_bind]
    simp only [Instruction.execute, Instruction.effect]
    cases h.relativeSlot offset <;> rfl
  | jalr rd rs1 offset =>
    have quarter (a : Word) : unsignedQuotient a.toNat 4 = .ok (a >>> 2).toNat := by
      rw [BitVec.toNat_ushiftRight, Nat.shiftRight_eq_div_pow]
      rfl
    simp only [Instruction.coded, execute, readRegister_toByte, writeRegister_toByte, quarter,
      lift_ok, pure_bind, BitVec.ofNat_toNat, BitVec.setWidth_eq]
    rfl
  | lui rd imm =>
    simp only [Instruction.coded, execute, writeRegister_toByte, lift_ok, pure_bind,
      Hart.advance_setReg]
    rfl
  | auipc rd imm =>
    simp only [Instruction.coded, execute, writeRegister_toByte, lift_ok, pure_bind,
      Hart.advance_setReg]
    rfl
  | halt => rfl

/-- Without the tests of decoding it would: this is laid out like an instruction but is none. -/
example : execute (.zero 16) (.op .add 1 32 0) = ExceptT.mk (.error .index) := rfl

end Checked

end Rv32i
