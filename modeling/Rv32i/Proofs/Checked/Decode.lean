import Rv32i.Proofs.Assembly.Decoded
import Rv32i.Proofs.Checked.Abort

/-!
# Decoding in bytes

A decoded instruction as it is laid out has bytes for its registers, and nothing in its type keeps
them below 32. Decoding has to.

* `Coded` is the layout, `Instruction.coded` puts an instruction into it;
* `signExtend` extends with masks and shifts, and comes through for every width of an immediate
  (`signExtend_eq`);
* `decode_eq`: decoding never aborts, whatever the record, and what it returns is the layout of an
  instruction.
-/

namespace Rv32i

namespace Checked

/-- An instruction in bytes. -/
inductive Coded
  | op (op : AluOp) (rd rs1 rs2 : Byte)
  | opImm (op : ImmOp) (rd rs1 : Byte) (imm : Word)
  | shiftImm (op : ShiftOp) (rd rs1 shamt : Byte)
  | load (op : LoadOp) (rd rs1 : Byte) (offset : Word)
  | store (width : Width) (rs1 rs2 : Byte) (offset : Word)
  | branch (cond : Cond) (rs1 rs2 : Byte) (offset : Word)
  | jal (rd : Byte) (offset : Word)
  | jalr (rd rs1 : Byte) (offset : Word)
  | lui (rd : Byte) (imm : Word)
  | auipc (rd : Byte) (imm : Word)
  | halt
deriving DecidableEq

end Checked

open Checked

/-- An instruction, laid out in bytes. -/
def Instruction.coded : Instruction → Coded
  | op o rd rs1 rs2 => .op o rd.toByte rs1.toByte rs2.toByte
  | opImm o rd rs1 imm => .opImm o rd.toByte rs1.toByte imm
  | shiftImm o rd rs1 shamt => .shiftImm o rd.toByte rs1.toByte (BitVec.ofNat 8 shamt)
  | load o rd rs1 offset => .load o rd.toByte rs1.toByte offset
  | store width rs1 rs2 offset => .store width rs1.toByte rs2.toByte offset
  | branch cond rs1 rs2 offset => .branch cond rs1.toByte rs2.toByte offset
  | jal rd offset => .jal rd.toByte offset
  | jalr rd rs1 offset => .jalr rd.toByte rs1.toByte offset
  | lui rd imm => .lui rd.toByte imm
  | auipc rd imm => .auipc rd.toByte imm
  | halt => .halt

namespace Checked

/-! ## 1. Immediates -/

/-- The low `bits` bits of a word, sign-extended. -/
def signExtend (bits : Nat) (value : Word) : Except Abort Word := do
  if bits < 1 ∨ 32 < bits then throw .assertion
  if 32 ≤ bits then return value
  let mask ← difference (← shift .sll 1 bits) 1
  let field := value &&& mask
  let sign ← shift .sll 1 (← unsigned 32 ((bits : Int) - 1))
  if field &&& sign ≠ 0 then return field ||| (← shift .sll (-1) bits)
  else return field

theorem toNat_one_shiftLeft {bits : Nat} (lt : bits < 32) :
    ((1 : Word) <<< bits).toNat = 2 ^ bits := by
  have below : 2 ^ bits < 2 ^ 32 := Nat.pow_lt_pow_right (by decide) lt
  rw [BitVec.toNat_shiftLeft, Nat.shiftLeft_eq]
  show 1 * 2 ^ bits % 2 ^ 32 = 2 ^ bits
  rw [Nat.one_mul, Nat.mod_eq_of_lt below]

/-- The mask of a width has the bits below it. -/
theorem difference_mask {bits : Nat} (lt : bits < 32) :
    ∃ mask, difference ((1 : Word) <<< bits) 1 = .ok mask ∧
      ∀ i, mask.getLsbD i = decide (i < bits) := by
  have power := toNat_one_shiftLeft lt
  have one : (1 : Word).toNat ≤ ((1 : Word) <<< bits).toNat := power ▸ Nat.one_le_two_pow
  have mask : ((1 : Word) <<< bits - 1).toNat = 2 ^ bits - 1 := by
    rw [BitVec.toNat_sub_of_le one, power]
    rfl
  refine ⟨_, if_pos one, fun i => ?_⟩
  rw [← BitVec.testBit_toNat, mask, Nat.testBit_two_pow_sub_one]

/-- The bits of a word that is extended: its own below the width, and from there on the last. -/
theorem getLsbD_signField {bits : Nat} (positive : 1 ≤ bits) (value : Word) {i : Nat}
    (lt : i < 32) :
    (Word.signField bits value).getLsbD i =
      if i < bits then value.getLsbD i else value.getLsbD (bits - 1) := by
  have last : bits - 1 < bits := by omega
  rw [Word.signField, BitVec.getLsbD_signExtend, BitVec.msb_eq_getLsbD_last]
  simp only [lt, last, BitVec.getLsbD_setWidth, decide_true, Bool.true_and]
  split
  · rename_i below
    simp [below]
  · rfl

/-- A single bit of a word, tested with a mask. -/
theorem and_shiftLeft_ne_zero {k : Nat} (lt : k < 32) (w : Word) :
    w &&& (1 : Word) <<< k ≠ 0 ↔ w.getLsbD k = true := by
  have nonzero : BitVec.twoPow 32 k ≠ 0 := by
    intro zero
    have power : (BitVec.twoPow 32 k).toNat = 2 ^ k := toNat_one_shiftLeft lt
    rw [zero] at power
    exact absurd power.symm (Nat.ne_of_gt (Nat.two_pow_pos k))
  show w &&& BitVec.twoPow 32 k ≠ 0 ↔ _
  rw [BitVec.and_twoPow]
  cases w.getLsbD k
  · exact iff_of_false (fun ne => ne rfl) nofun
  · exact iff_of_true nonzero rfl

/-- Minus one, shifted, has the bits from the amount on. -/
theorem getLsbD_ones {bits i : Nat} (lt : i < 32) :
    ((-1 : Word) <<< bits).getLsbD i = !decide (i < bits) := by
  have inside : i - bits < 32 := by omega
  have ones : (-1 : Word) = BitVec.allOnes 32 := rfl
  rw [BitVec.getLsbD_shiftLeft, ones, BitVec.getLsbD_allOnes]
  simp [lt, inside]

/-- **Masks and shifts extend the sign** of every width there is. -/
theorem signExtend_eq {bits : Nat} (positive : 1 ≤ bits) (le : bits ≤ 32) (value : Word) :
    signExtend bits value = .ok (Word.signField bits value) := by
  have within : ¬ (bits < 1 ∨ 32 < bits) := by omega
  unfold signExtend
  rw [if_neg within]
  rcases Nat.lt_or_eq_of_le le with lt | rfl
  · obtain ⟨mask, masked, low⟩ := difference_mask lt
    have last : unsigned 32 ((bits : Int) - 1) = .ok (bits - 1) := unsigned_pred positive (by omega)
    have field : ∀ i, (value &&& mask).getLsbD i = (value.getLsbD i && decide (i < bits)) := by
      intro i
      rw [BitVec.getLsbD_and, low]
    have sign : (value &&& mask) &&& (1 : Word) <<< (bits - 1) ≠ 0 ↔
        value.getLsbD (bits - 1) = true := by
      rw [and_shiftLeft_ne_zero (by omega), field, Bool.and_eq_true, decide_eq_true_eq]
      exact and_iff_left (by omega)
    have short : ¬ 32 ≤ bits := by omega
    rw [if_neg short]
    simp only [shift_of_lt _ _ lt, shift_of_lt _ _ (show bits - 1 < 32 by omega), last, ok_bind,
      ShiftOp.apply, masked]
    split
    · rename_i negative
      refine congrArg Except.ok (BitVec.eq_of_getLsbD_eq fun i lt32 => ?_)
      rw [getLsbD_signField positive value lt32, BitVec.getLsbD_or, field, getLsbD_ones lt32,
        sign.mp negative]
      by_cases below : i < bits <;> simp [below]
    · rename_i negative
      have plain : value.getLsbD (bits - 1) = false := by
        rwa [sign, Bool.not_eq_true] at negative
      refine congrArg Except.ok (BitVec.eq_of_getLsbD_eq fun i lt32 => ?_)
      rw [getLsbD_signField positive value lt32, field, plain]
      by_cases below : i < bits <;> simp [below]
  · rw [Word.signField, BitVec.setWidth_eq, BitVec.signExtend_eq]
    rfl

/-- The low 20 bits of a word, shifted into place. -/
def upperWord (value : Word) : Except Abort Word :=
  shift .sll (value &&& 0xFFFFF) 12

theorem upperWord_eq (value : Word) : upperWord value = .ok (value <<< 12) := by
  have ones : ∀ j < 20, (0xFFFFF : Word).getLsbD j = true := by decide
  have kept : (value &&& 0xFFFFF) <<< 12 = value <<< 12 := by
    apply BitVec.eq_of_getLsbD_eq
    intro i lt
    rw [BitVec.getLsbD_shiftLeft, BitVec.getLsbD_shiftLeft, BitVec.getLsbD_and]
    by_cases low : i < 12
    · simp [low]
    · rw [ones (i - 12) (by omega), Bool.and_true]
  rw [upperWord, shift_of_lt _ _ (by decide)]
  exact congrArg Except.ok kept

/-! ## 2. Operands -/

section

variable (r : Record)

/-- A register operand, which must be there and in range. -/
def register (operand : Operand) (value : Option Byte) : Guarded DecodeFault Byte :=
  match value with
  | none => throw (.missingField r.opcode operand)
  | some index => if 32 ≤ index.toNat then throw (.registerOutOfRange index) else pure index

/-- The destination register. -/
def rdByte : Guarded DecodeFault Byte :=
  register r .rd r.rd

/-- The first source register. -/
def rs1Byte : Guarded DecodeFault Byte :=
  register r .rs1 r.rs1

/-- The second source register. -/
def rs2Byte : Guarded DecodeFault Byte :=
  register r .rs2 r.rs2

/-- The immediate, sign-extended from a width. -/
def signedImm (bits : Nat) : Guarded DecodeFault Word := do
  let imm ← done r.rawImm
  signExtend bits imm

/-- The immediate as a branch or jump offset of a width, which must be even. -/
def evenImm (bits : Nat) : Guarded DecodeFault Word := do
  let offset ← signedImm r bits
  if offset.toNat % 2 = 0 then return offset
  else throw (.misalignedOffset r.opcode offset)

/-- The immediate as a shift amount. -/
def shiftAmount : Guarded DecodeFault Byte := do
  let imm ← done r.rawImm
  if imm.toNat < 32 then return imm.setWidth 8 else throw (.shiftOutOfRange imm)

/-- The low 20 bits of the immediate, shifted into place. -/
def upperImm : Guarded DecodeFault Word := do
  let imm ← done r.rawImm
  upperWord imm

/-- **A register that is returned is one.** -/
theorem register_eq (operand : Operand) (value : Option Byte) :
    register r operand value = done ((r.register operand value).map Reg.toByte) := by
  cases value with
  | none => rfl
  | some index =>
    unfold register Record.register
    by_cases inside : index.toNat < 32
    · have same : Reg.toByte ⟨index.toNat, inside⟩ = index := BitVec.ofNat_toNat 8 index
      simp only [inside, Nat.not_le_of_lt inside, if_false, dif_pos]
      show pure index = done (.ok (Reg.toByte ⟨index.toNat, inside⟩))
      rw [same]
      rfl
    · simp only [inside, Nat.le_of_not_lt inside, if_true]
      rfl

theorem signedImm_eq {bits : Nat} (positive : 1 ≤ bits) (le : bits ≤ 32) :
    signedImm r bits = done (r.signedImm bits) := by
  unfold signedImm Record.signedImm
  simp only [signExtend_eq positive le, lift_ok, done_bind, done_pure]

theorem evenImm_eq {bits : Nat} (positive : 1 ≤ bits) (le : bits ≤ 32) :
    evenImm r bits = done (r.evenImm bits) := by
  unfold evenImm Record.evenImm
  rw [signedImm_eq r positive le, done_bind]
  congr 1
  funext offset
  split <;> rfl

theorem shiftAmount_eq :
    shiftAmount r = done (r.shiftAmount.map fun shamt => BitVec.ofNat 8 shamt) := by
  unfold shiftAmount Record.shiftAmount
  cases r.rawImm with
  | error e => rfl
  | ok imm =>
    have same : imm.setWidth 8 = BitVec.ofNat 8 imm.toNat := (BitVec.ofNat_toNat 8 imm).symm
    simp only [done_ok, pure_bind, ok_bind, same]
    split <;> rfl

theorem upperImm_eq : upperImm r = done r.upperImm := by
  unfold upperImm Record.upperImm
  simp only [upperWord_eq, lift_ok, done_bind, done_pure]

end

/-! ## 3. Instructions -/

/-- The instruction of an operation with the operands of a record. -/
def withOperands (r : Record) : Operation → Guarded DecodeFault Coded
  | .op op => return .op op (← rdByte r) (← rs1Byte r) (← rs2Byte r)
  | .opImm op => return .opImm op (← rdByte r) (← rs1Byte r) (← signedImm r 12)
  | .shiftImm op => return .shiftImm op (← rdByte r) (← rs1Byte r) (← shiftAmount r)
  | .load op => return .load op (← rdByte r) (← rs1Byte r) (← signedImm r 12)
  | .store width => return .store width (← rs1Byte r) (← rs2Byte r) (← signedImm r 12)
  | .branch cond => return .branch cond (← rs1Byte r) (← rs2Byte r) (← evenImm r 13)
  | .jal => return .jal (← rdByte r) (← evenImm r 21)
  | .jalr => return .jalr (← rdByte r) (← rs1Byte r) (← signedImm r 12)
  | .lui => return .lui (← rdByte r) (← upperImm r)
  | .auipc => return .auipc (← rdByte r) (← upperImm r)
  | .halt => return .halt

/-- The instruction of a record. An error names the record's line. -/
def decode (r : Record) : Guarded DecodeError Coded :=
  ExceptT.adapt (fun fault => ⟨r.line, fault⟩) do
    done r.checkShape
    withOperands r r.opcode.operation

theorem withOperands_eq (r : Record) (o : Operation) :
    withOperands r o = done ((r.withOperands o).map Instruction.coded) := by
  have rd : rdByte r = done (r.rdReg.map Reg.toByte) := register_eq r .rd r.rd
  have rs1 : rs1Byte r = done (r.rs1Reg.map Reg.toByte) := register_eq r .rs1 r.rs1
  have rs2 : rs2Byte r = done (r.rs2Reg.map Reg.toByte) := register_eq r .rs2 r.rs2
  have imm : signedImm r 12 = done (r.signedImm 12) := signedImm_eq r (by decide) (by decide)
  have branch : evenImm r 13 = done (r.evenImm 13) := evenImm_eq r (by decide) (by decide)
  have jump : evenImm r 21 = done (r.evenImm 21) := evenImm_eq r (by decide) (by decide)
  unfold withOperands Record.withOperands
  simp only [rd, rs1, rs2, imm, branch, jump, shiftAmount_eq, upperImm_eq]
  -- the operands are read in the same order, up to the first that is wrong
  cases o with
  | op => cases r.rdReg <;> cases r.rs1Reg <;> cases r.rs2Reg <;> rfl
  | opImm | load | jalr => cases r.rdReg <;> cases r.rs1Reg <;> cases r.signedImm 12 <;> rfl
  | shiftImm => cases r.rdReg <;> cases r.rs1Reg <;> cases r.shiftAmount <;> rfl
  | store => cases r.rs1Reg <;> cases r.rs2Reg <;> cases r.signedImm 12 <;> rfl
  | branch => cases r.rs1Reg <;> cases r.rs2Reg <;> cases r.evenImm 13 <;> rfl
  | jal => cases r.rdReg <;> cases r.evenImm 21 <;> rfl
  | lui | auipc => cases r.rdReg <;> cases r.upperImm <;> rfl
  | halt => rfl

/-- **Decoding never aborts**, and the instruction it returns has registers and shift amounts
    below 32. -/
theorem decode_eq (r : Record) : decode r = done (r.decode.map Instruction.coded) := by
  unfold decode Record.decode Record.toInstruction
  simp only [withOperands_eq]
  cases r.checkShape with
  | error fault => rfl
  | ok =>
    simp only [ok_bind]
    cases r.withOperands r.opcode.operation <;> rfl

end Checked

end Rv32i
