import Rv32i.Isa.Mnemonic
import Rv32i.Text.Numeral

/-!
# Instruction records

A record is one statement of a program with its operands resolved: what assembling a source
produces, what a snapshot carries, and what is decoded before it is executed. A record may come
from outside, so nothing is promised about it: any operand may be there or not, a register number
is any byte, and even the format need not be that of the mnemonic.
-/

namespace Rv32i

open Text

/-- One statement of a program. -/
structure Record where
  opcode : Mnemonic
  format : Format
  /-- Position in the program, from zero. -/
  index : Nat
  /-- Source line, from one. -/
  line : Nat
  /-- The statement as written, without labels and comment. -/
  source : String
  rd : Option Byte := none
  rs1 : Option Byte := none
  rs2 : Option Byte := none
  imm : Option Word := none
  /-- The label that the immediate was written as. -/
  label : Option String := none
deriving DecidableEq

namespace Record

/-- The record of a statement before its operands are known. -/
def bare (opcode : Mnemonic) (index line : Nat) (source : String) : Record :=
  { opcode, format := opcode.format, index, line, source }

/-- The record carries the operand. -/
def has (r : Record) : Operand → Bool
  | .rd => r.rd.isSome
  | .rs1 => r.rs1.isSome
  | .rs2 => r.rs2.isSome
  | .imm => r.imm.isSome
  | .label => r.label.isSome

/-- The record in one line: its position, its source text and where that stood. -/
def describe (r : Record) : String :=
  padLeft 4 ' ' (decimal r.index) ++ ": " ++ r.source ++ " (line " ++ decimal r.line ++
    ", format=" ++ r.format.name ++ ")"

end Record

end Rv32i
