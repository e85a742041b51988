import Rv32i.Assembly.Label
import Rv32i.Assembly.ParseError
import Rv32i.Isa.Literal
import Rv32i.Isa.Reg
import Rv32i.Text.Pieces

/-!
# Operands of a statement

How the operand text of a statement is taken apart, and how its parts are read.

* `noParts`, `twoParts` and `threeParts` split the text at commas, parentheses and blanks and fix
  the number of parts; a run of separators counts as one;
* `addressParts` takes a register and an address apart, written `reg, base, offset` or
  `reg, offset(base)`, where the offset before the parenthesis may be left out;
* `register`, `immediate` and `target` give the parts their values.
-/

namespace Rv32i

open Text

namespace Operands

/-! ## 1. Taking the text apart -/

/-- Commas, parentheses and blanks separate operands. -/
def isSeparator (c : Char) : Bool :=
  c = ',' || c = '(' || c = ')' || isBlank c

/-- The parts of an operand text. -/
def parts (text : List Char) : List (List Char) :=
  words isSeparator text

/-- No operand. -/
def noParts (opcode : Mnemonic) (text : List Char) : Except ParseFault Unit :=
  match parts text with
  | [] => .ok ()
  | ps => .error (.operandCount opcode 0 ps.length)

/-- Exactly two operands. -/
def twoParts (opcode : Mnemonic) (text : List Char) : Except ParseFault (List Char × List Char) :=
  match parts text with
  | [a, b] => .ok (a, b)
  | ps => .error (.operandCount opcode 2 ps.length)

/-- Exactly three operands. -/
def threeParts (opcode : Mnemonic) (text : List Char) :
    Except ParseFault (List Char × List Char × List Char) :=
  match parts text with
  | [a, b, c] => .ok (a, b, c)
  | ps => .error (.operandCount opcode 3 ps.length)

/-- A register and an address: a base register and the offset from it, if one is written. -/
structure AddressParts where
  reg : List Char
  base : List Char
  offset : Option (List Char)
deriving DecidableEq

/-- The parts of `reg` and `offset(base)`, where `none` stands for text of another form: an empty
    register or base, no parenthesis at the end, or a second comma or parenthesis. -/
def bracketed? (reg address : List Char) : Option AddressParts := do
  let reg := trim reg
  let (offset, inner) ← cut (· = '(') (trim address)
  let last ← inner.getLast?
  let base := trim inner.dropLast
  let offset := trim offset
  if reg.isEmpty || last ≠ ')' || base.isEmpty || base.any (fun c => c = '(' || c = ')' || c = ',')
      || offset.any (fun c => c = ')' || c = ',') then
    none
  else
    some ⟨reg, base, if offset.isEmpty then none else some offset⟩

/-- A register and an address in either form. The text without a parenthesis has three parts; the
    one with a parenthesis is split at its first comma. -/
def addressParts (opcode : Mnemonic) (text : List Char) : Except ParseFault AddressParts :=
  if text.contains '(' then
    match cut (· = ',') text with
    | none => .error (.operandCount opcode 2 (parts text).length)
    | some (reg, address) =>
      match bracketed? reg address with
      | none => .error (.malformedOperand (String.ofList text))
      | some ps => .ok ps
  else do
    let (reg, base, offset) ← threeParts opcode text
    return ⟨reg, base, some offset⟩

/-! ## 2. Reading the parts -/

/-- The register that a part names. -/
def register (part : List Char) : Except ParseFault Byte :=
  match Reg.ofText? part with
  | some r => .ok (Reg.toByte r)
  | none => .error (.invalidRegister (String.ofList part))

/-- A value that has to fit a field, as a word. -/
def fit (field : Field) (value : Int) : Except ParseFault Word :=
  if field.admits value then .ok (BitVec.ofInt 32 value)
  else .error (.immediateOutOfRange value field)

/-- The literal that a part writes. -/
def immediate (field : Field) (part : List Char) : Except ParseFault Word :=
  match literal? part with
  | some value => fit field value
  | none => .error (.invalidImmediate (String.ofList part))

/-- The offset of an address, which is zero if none is written. -/
def offset (part : Option (List Char)) : Except ParseFault Word :=
  match part with
  | some part => immediate (.signed 12) part
  | none => .ok 0

/-- A branch or jump target seen from an instruction slot: a byte offset, or a label with the
    byte offset to the slot it names. -/
def target (labels : LabelTable) (slot : Nat) (field : Field) (part : List Char) :
    Except ParseFault (Word × Option String) :=
  match literal? part with
  | some value => do
    let imm ← fit field value
    return (imm, none)
  | none =>
    let name := String.ofList part
    if isIdentifier part then
      match labels.slot? name with
      | some there => do
        let imm ← fit field (((there : Int) - slot) * 4)
        return (imm, some name)
      | none => .error (.undefinedLabel name)
    else .error (.invalidImmediate name)

end Operands

end Rv32i
