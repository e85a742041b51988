import Rv32i.Assembly.Record
import Rv32i.Isa.Instruction

/-!
# Decoding records

`Record.decode` turns a record into an instruction, or says what is wrong with the record. It asks
for nothing but the record, so records from outside are checked in full:

* the format must be that of the mnemonic, and no operand may be there that the format lacks;
* then the operands are read in the order rd, rs1, rs2, immediate. Each must be there; registers
  are below 32, shift amounts too, and branch and jump offsets are even.

Immediates are sign-extended from the width of their format, upper immediates shifted into place.
-/

namespace Rv32i

open Text

/-! ## 1. Faults -/

/-- Why a record is no instruction. -/
inductive DecodeFault
  | formatMismatch (opcode : Mnemonic) (found : Format)
  | unexpectedField (opcode : Mnemonic) (operand : Operand)
  | missingField (opcode : Mnemonic) (operand : Operand)
  | registerOutOfRange (index : Byte)
  | shiftOutOfRange (value : Word)
  | misalignedOffset (opcode : Mnemonic) (offset : Word)
deriving DecidableEq

/-- A fault and the source line of the record that has it. -/
structure DecodeError where
  line : Nat
  fault : DecodeFault
deriving DecidableEq

/-- The wording of a fault. -/
def DecodeFault.message : DecodeFault → String
  | formatMismatch opcode found =>
    opcode.name ++ " is recorded as " ++ found.name ++ " but belongs to " ++ opcode.format.name
  | unexpectedField opcode operand =>
    opcode.name ++ " does not take operand `" ++ operand.name ++ "`"
  | missingField opcode operand => opcode.name ++ " is missing operand `" ++ operand.name ++ "`"
  | registerOutOfRange index => "register index " ++ decimal index.toNat ++ " out of range 0..=31"
  | shiftOutOfRange value => "shift amount " ++ signed value.toInt ++ " out of range 0..=31"
  | misalignedOffset opcode offset =>
    "offset " ++ signed offset.toInt ++ " of " ++ opcode.name ++ " is not 2-byte aligned"

/-- The wording of an error. -/
def DecodeError.message (e : DecodeError) : String :=
  "line " ++ decimal e.line ++ ": " ++ e.fault.message

namespace Record

/-! ## 2. The shape of a record -/

/-- The first operand that the record has and its format lacks. -/
def foreignOperand? (r : Record) : Option Operand :=
  Operand.all.find? fun operand => r.has operand && !r.opcode.format.takes operand

/-- The format is that of the mnemonic, and no operand is foreign to it. -/
def checkShape (r : Record) : Except DecodeFault Unit :=
  if r.format ≠ r.opcode.format then .error (.formatMismatch r.opcode r.format)
  else match r.foreignOperand? with
    | some operand => .error (.unexpectedField r.opcode operand)
    | none => .ok ()

/-! ## 3. Reading the operands -/

/-- A register operand, which must be there and in range. -/
def register (r : Record) (operand : Operand) (value : Option Byte) : Except DecodeFault Reg :=
  match value with
  | none => .error (.missingField r.opcode operand)
  | some index =>
    if h : index.toNat < 32 then .ok ⟨index.toNat, h⟩ else .error (.registerOutOfRange index)

/-- The destination register. -/
def rdReg (r : Record) : Except DecodeFault Reg :=
  r.register .rd r.rd

/-- The first source register. -/
def rs1Reg (r : Record) : Except DecodeFault Reg :=
  r.register .rs1 r.rs1

/-- The second source register. -/
def rs2Reg (r : Record) : Except DecodeFault Reg :=
  r.register .rs2 r.rs2

/-- The immediate as recorded. -/
def rawImm (r : Record) : Except DecodeFault Word :=
  match r.imm with
  | some imm => .ok imm
  | none => .error (.missingField r.opcode .imm)

/-- The immediate, sign-extended from a width. -/
def signedImm (r : Record) (bits : Nat) : Except DecodeFault Word := do
  let imm ← r.rawImm
  return Word.signField bits imm

/-- The immediate as a branch or jump offset of a width, which must be even. -/
def evenImm (r : Record) (bits : Nat) : Except DecodeFault Word := do
  let offset ← r.signedImm bits
  if offset.toNat % 2 = 0 then return offset
  else .error (.misalignedOffset r.opcode offset)

/-- The immediate as a shift amount. -/
def shiftAmount (r : Record) : Except DecodeFault (Fin 32) := do
  let imm ← r.rawImm
  if h : imm.toNat < 32 then return ⟨imm.toNat, h⟩ else .error (.shiftOutOfRange imm)

/-- The low 20 bits of the immediate, shifted into place. -/
def upperImm (r : Record) : Except DecodeFault Word := do
  let imm ← r.rawImm
  return imm <<< 12

/-! ## 4. Instructions -/

/-- The instruction of an operation with the operands of the record. -/
def withOperands (r : Record) : Operation → Except DecodeFault Instruction
  | .op op => return .op op (← r.rdReg) (← r.rs1Reg) (← r.rs2Reg)
  | .opImm op => return .opImm op (← r.rdReg) (← r.rs1Reg) (← r.signedImm 12)
  | .shiftImm op => return .shiftImm op (← r.rdReg) (← r.rs1Reg) (← r.shiftAmount)
  | .load op => return .load op (← r.rdReg) (← r.rs1Reg) (← r.signedImm 12)
  | .store width => return .store width (← r.rs1Reg) (← r.rs2Reg) (← r.signedImm 12)
  | .branch cond => return .branch cond (← r.rs1Reg) (← r.rs2Reg) (← r.evenImm 13)
  | .jal => return .jal (← r.rdReg) (← r.evenImm 21)
  | .jalr => return .jalr (← r.rdReg) (← r.rs1Reg) (← r.signedImm 12)
  | .lui => return .lui (← r.rdReg) (← r.upperImm)
  | .auipc => return .auipc (← r.rdReg) (← r.upperImm)
  | .halt => return .halt

/-- The instruction of a record, or why there is none. -/
def toInstruction (r : Record) : Except DecodeFault Instruction := do
  r.checkShape
  r.withOperands r.opcode.operation

/-- The instruction of a record. An error names the record's line. -/
def decode (r : Record) : Except DecodeError Instruction :=
  r.toInstruction.mapError fun fault => ⟨r.line, fault⟩

end Record

end Rv32i
