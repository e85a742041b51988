import Rv32i.Assembly.Operand
import Rv32i.Assembly.Record

/-!
# Statements

A statement is a mnemonic followed by its operands; the first blank ends the mnemonic.
`Statement.assemble` turns the statement at an instruction slot into a record. Operands are read
from left to right as they are written, and the first one that is wrong is reported.
-/

namespace Rv32i

open Text

namespace Statement

/-- The mnemonic and the operand text of a statement. -/
def split (text : List Char) : List Char × List Char :=
  match cut isBlank text with
  | some (head, rest) => (head, trim rest)
  | none => (text, [])

/-- The record with the operands of its format. -/
def readOperands (labels : LabelTable) (record : Record) (text : List Char) :
    Except ParseFault Record :=
  let opcode := record.opcode
  match record.format with
  | .r => do
    let (rd, rs1, rs2) ← Operands.threeParts opcode text
    let rd ← Operands.register rd
    let rs1 ← Operands.register rs1
    let rs2 ← Operands.register rs2
    return { record with rd := some rd, rs1 := some rs1, rs2 := some rs2 }
  | .i => do
    let (rd, rs1, imm) ← Operands.threeParts opcode text
    let rd ← Operands.register rd
    let rs1 ← Operands.register rs1
    let imm ← Operands.immediate (.signed 12) imm
    return { record with rd := some rd, rs1 := some rs1, imm := some imm }
  | .il | .jalr => do
    let address ← Operands.addressParts opcode text
    let rd ← Operands.register address.reg
    let rs1 ← Operands.register address.base
    let imm ← Operands.offset address.offset
    return { record with rd := some rd, rs1 := some rs1, imm := some imm }
  | .s => do
    let address ← Operands.addressParts opcode text
    let rs2 ← Operands.register address.reg
    let rs1 ← Operands.register address.base
    let imm ← Operands.offset address.offset
    return { record with rs1 := some rs1, rs2 := some rs2, imm := some imm }
  | .sb => do
    let (rs1, rs2, target) ← Operands.threeParts opcode text
    let rs1 ← Operands.register rs1
    let rs2 ← Operands.register rs2
    let (imm, label) ← Operands.target labels record.index (.signed 13) target
    return { record with rs1 := some rs1, rs2 := some rs2, imm := some imm, label }
  | .uj => do
    let (rd, target) ← Operands.twoParts opcode text
    let rd ← Operands.register rd
    let (imm, label) ← Operands.target labels record.index (.signed 21) target
    return { record with rd := some rd, imm := some imm, label }
  | .u => do
    let (rd, imm) ← Operands.twoParts opcode text
    let rd ← Operands.register rd
    let imm ← Operands.immediate .upper imm
    return { record with rd := some rd, imm := some imm }
  | .hlt => do
    Operands.noParts opcode text
    return record

/-- The record of the statement at an instruction slot and a source line. -/
def assemble (labels : LabelTable) (slot line : Nat) (text : List Char) :
    Except ParseFault Record :=
  let (head, operands) := split text
  match Mnemonic.ofText? head with
  | some opcode =>
    readOperands labels (Record.bare opcode slot line (String.ofList text)) operands
  | none => .error (.unknownMnemonic (String.ofList head))

end Statement

end Rv32i
