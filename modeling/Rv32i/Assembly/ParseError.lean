import Rv32i.Isa.Mnemonic
import Rv32i.Text.Numeral

/-!
# What can be wrong with a source text

A `ParseFault` is the cause, a `ParseError` the cause with the line it was found on.
`ParseError.message` is the only place that words them.
-/

namespace Rv32i

open Text

/-- Why a source line is refused. -/
inductive ParseFault
  | unknownMnemonic (text : String)
  | operandCount (opcode : Mnemonic) (expected found : Nat)
  | invalidRegister (text : String)
  | invalidImmediate (text : String)
  | immediateOutOfRange (value : Int) (field : Field)
  | invalidLabel (label : String)
  | duplicateLabel (label : String) (first : Nat)
  | undefinedLabel (label : String)
  | malformedOperand (text : String)
deriving DecidableEq

/-- A fault and the line, from one, that has it. -/
structure ParseError where
  line : Nat
  fault : ParseFault
deriving DecidableEq

/-- The wording of a fault. -/
def ParseFault.message : ParseFault → String
  | unknownMnemonic text => "unknown instruction `" ++ text ++ "`"
  | operandCount opcode expected found =>
    opcode.name ++ " expects " ++ decimal expected ++ " operands, found " ++ decimal found
  | invalidRegister text => "invalid register `" ++ text ++ "`"
  | invalidImmediate text => "invalid immediate `" ++ text ++ "`"
  | immediateOutOfRange value field =>
    "immediate " ++ signed value ++ " out of range for " ++ decimal field.bits ++ "-bit field (" ++
      signed field.low ++ "..=" ++ signed field.high ++ ")"
  | invalidLabel label => "invalid label `" ++ label ++ "`"
  | duplicateLabel label first =>
    "label `" ++ label ++ "` already defined on line " ++ decimal first
  | undefinedLabel label => "undefined label `" ++ label ++ "`"
  | malformedOperand text => "malformed memory operand `" ++ text ++ "`"

/-- The wording of an error. -/
def ParseError.message (e : ParseError) : String :=
  "line " ++ decimal e.line ++ ": " ++ e.fault.message

end Rv32i
