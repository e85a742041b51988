import Rv32i.Isa.Word

/-!
# Instruction formats and mnemonics

A mnemonic belongs to one format, and the format says which operands a statement has:

| format | mnemonics                                   | operands            | immediate |
|--------|---------------------------------------------|---------------------|-----------|
| R      | add sub sll slt sltu xor srl sra or and      | rd rs1 rs2          |           |
| I      | addi slti sltiu xori ori andi slli srli srai | rd rs1 imm          | 12 bits   |
| IL     | lb lh lw lbu lhu                             | rd rs1 imm          | 12 bits   |
| S      | sb sh sw                                     | rs1 rs2 imm         | 12 bits   |
| SB     | beq bne blt bge bltu bgeu                    | rs1 rs2 imm (label) | 13 bits   |
| UJ     | jal                                          | rd imm (label)      | 21 bits   |
| JALR   | jalr                                         | rd rs1 imm          | 12 bits   |
| U      | lui auipc                                    | rd imm              | 20 bits   |
| HLT    | hlt                                          |                     |           |

`hlt` stops the machine; it is no instruction of the base set.
-/
namespace Rv32i

/-! ## 1. Formats and their operands -/

/-- The operands a record may carry. -/
inductive Operand
  | rd | rs1 | rs2 | imm | label
deriving DecidableEq

namespace Operand

/-- The operands in the order in which they are checked. -/
def all : List Operand :=
  [rd, rs1, rs2, imm, label]

/-- The name of an operand in messages and in records. -/
def name : Operand → String
  | rd => "rd"
  | rs1 => "rs1"
  | rs2 => "rs2"
  | imm => "imm"
  | label => "label"

end Operand

/-- The instruction formats. -/
inductive Format
  | r | i | il | s | sb | uj | jalr | u | hlt
deriving DecidableEq

namespace Format

/-- Every format. -/
def all : List Format :=
  [r, i, il, s, sb, uj, jalr, u, hlt]

/-- The name of a format. -/
def name : Format → String
  | r => "R"
  | i => "I"
  | il => "IL"
  | s => "S"
  | sb => "SB"
  | uj => "UJ"
  | jalr => "JALR"
  | u => "U"
  | hlt => "HLT"

/-- The format with a name, which is written exactly so. -/
def ofName? (text : String) : Option Format :=
  all.find? fun f => f.name = text

/-- The field in which the immediate of a format is written, if it has one. -/
def field? : Format → Option Field
  | i | il | s | jalr => some (.signed 12)
  | sb => some (.signed 13)
  | uj => some (.signed 21)
  | u => some .upper
  | r | hlt => none

/-- The format has the operand. A label stands for the immediate and may be left out. -/
def takes : Format → Operand → Bool
  | r, .rd | r, .rs1 | r, .rs2 => true
  | i, .rd | i, .rs1 | i, .imm => true
  | il, .rd | il, .rs1 | il, .imm => true
  | s, .rs1 | s, .rs2 | s, .imm => true
  | sb, .rs1 | sb, .rs2 | sb, .imm | sb, .label => true
  | uj, .rd | uj, .imm | uj, .label => true
  | jalr, .rd | jalr, .rs1 | jalr, .imm => true
  | u, .rd | u, .imm => true
  | _, _ => false

/-- A format takes an immediate exactly if it has a field for one. -/
theorem takes_imm (f : Format) : f.takes .imm = f.field?.isSome := by
  cases f <;> rfl

end Format

/-! ## 2. Mnemonics -/

/-- The supported mnemonics. -/
inductive Mnemonic
  | add | sub | sll | slt | sltu | xor | srl | sra | or | and | addi | slti | sltiu
  | xori | ori | andi | slli | srli | srai | lb | lh | lw | lbu | lhu | sb | sh | sw
  | beq | bne | blt | bge | bltu | bgeu | jal | jalr | lui | auipc | hlt
deriving DecidableEq

namespace Mnemonic

/-- Every mnemonic, by format. -/
def all : List Mnemonic :=
  [add, sub, sll, slt, sltu, xor, srl, sra, or, and, addi, slti, sltiu, xori, ori, andi, slli,
    srli, srai, lb, lh, lw, lbu, lhu, sb, sh, sw, beq, bne, blt, bge, bltu, bgeu, jal, jalr, lui,
    auipc, hlt]

/-- The format a mnemonic belongs to. -/
def format : Mnemonic → Format
  | add | sub | sll | slt | sltu | xor | srl | sra | or | and => .r
  | addi | slti | sltiu | xori | ori | andi | slli | srli | srai => .i
  | lb | lh | lw | lbu | lhu => .il
  | sb | sh | sw => .s
  | beq | bne | blt | bge | bltu | bgeu => .sb
  | jal => .uj
  | jalr => .jalr
  | lui | auipc => .u
  | hlt => .hlt

/-- The spelling of a mnemonic in listings, in lower case. -/
def spelling : Mnemonic → String
  | add => "add"
  | sub => "sub"
  | sll => "sll"
  | slt => "slt"
  | sltu => "sltu"
  | xor => "xor"
  | srl => "srl"
  | sra => "sra"
  | or => "or"
  | and => "and"
  | addi => "addi"
  | slti => "slti"
  | sltiu => "sltiu"
  | xori => "xori"
  | ori => "ori"
  | andi => "andi"
  | slli => "slli"
  | srli => "srli"
  | srai => "srai"
  | lb => "lb"
  | lh => "lh"
  | lw => "lw"
  | lbu => "lbu"
  | lhu => "lhu"
  | sb => "sb"
  | sh => "sh"
  | sw => "sw"
  | beq => "beq"
  | bne => "bne"
  | blt => "blt"
  | bge => "bge"
  | bltu => "bltu"
  | bgeu => "bgeu"
  | jal => "jal"
  | jalr => "jalr"
  | lui => "lui"
  | auipc => "auipc"
  | hlt => "hlt"

/-- The name of a mnemonic in messages and records: its spelling in upper case. -/
def name (m : Mnemonic) : String :=
  String.ofList (m.spelling.toList.map Char.toUpper)

/-- The mnemonic with a name, which is written exactly so. -/
def ofName? (text : String) : Option Mnemonic :=
  all.find? fun m => m.name = text

/-- The mnemonic that a text spells, in either case. -/
def ofText? (cs : List Char) : Option Mnemonic :=
  let word := cs.map Char.toLower
  all.find? fun m => m.spelling.toList = word

theorem mem_all (m : Mnemonic) : m ∈ all := by
  cases m <;> decide

end Mnemonic

end Rv32i
