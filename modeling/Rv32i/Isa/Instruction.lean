import Rv32i.Isa.Mnemonic
import Rv32i.Isa.Reg

/-!
# Instructions

An `Operation` is what a mnemonic does, without its operands; an `Instruction` is an operation
with operands that are known to be valid. Registers are numbers below 32, shift amounts too;
immediates and byte offsets are already sign-extended, upper immediates already shifted.

* `Mnemonic.operation` and `Operation.mnemonic` are inverse to each other;
* `Instruction.listing` writes an instruction in canonical assembly text, with registers by
  number, which the assembler reads back as the same instruction.
-/

namespace Rv32i

open Text

/-! ## 1. Operations -/

/-- Operations on two register values. -/
inductive AluOp
  | add | sub | sll | slt | sltu | xor | srl | sra | or | and
deriving DecidableEq

/-- Operations on a register value and an immediate, shifts apart. -/
inductive ImmOp
  | add | slt | sltu | xor | or | and
deriving DecidableEq

/-- The register operation that an immediate operation performs. -/
def ImmOp.toAluOp : ImmOp → AluOp
  | add => .add
  | slt => .slt
  | sltu => .sltu
  | xor => .xor
  | or => .or
  | and => .and

/-- Shifts by a constant amount. -/
inductive ShiftOp
  | sll | srl | sra
deriving DecidableEq

/-- Access widths. -/
inductive Width
  | byte | half | word
deriving DecidableEq

/-- The number of bytes of an access. -/
def Width.bytes : Width → Nat
  | byte => 1
  | half => 2
  | word => 4

/-- Loads: a width, and whether the value is sign- or zero-extended. -/
inductive LoadOp
  | byte | half | word | byteUnsigned | halfUnsigned
deriving DecidableEq

/-- The width of the access of a load. -/
def LoadOp.width : LoadOp → Width
  | byte | byteUnsigned => .byte
  | half | halfUnsigned => .half
  | word => .word

/-- Branch conditions. -/
inductive Cond
  | eq | ne | lt | ge | ltu | geu
deriving DecidableEq

/-- What a mnemonic does. -/
inductive Operation
  | op (op : AluOp)
  | opImm (op : ImmOp)
  | shiftImm (op : ShiftOp)
  | load (op : LoadOp)
  | store (width : Width)
  | branch (cond : Cond)
  | jal
  | jalr
  | lui
  | auipc
  | halt
deriving DecidableEq

/-- The operation of a mnemonic. -/
def Mnemonic.operation : Mnemonic → Operation
  | add => .op .add
  | sub => .op .sub
  | sll => .op .sll
  | slt => .op .slt
  | sltu => .op .sltu
  | xor => .op .xor
  | srl => .op .srl
  | sra => .op .sra
  | or => .op .or
  | and => .op .and
  | addi => .opImm .add
  | slti => .opImm .slt
  | sltiu => .opImm .sltu
  | xori => .opImm .xor
  | ori => .opImm .or
  | andi => .opImm .and
  | slli => .shiftImm .sll
  | srli => .shiftImm .srl
  | srai => .shiftImm .sra
  | lb => .load .byte
  | lh => .load .half
  | lw => .load .word
  | lbu => .load .byteUnsigned
  | lhu => .load .halfUnsigned
  | sb => .store .byte
  | sh => .store .half
  | sw => .store .word
  | beq => .branch .eq
  | bne => .branch .ne
  | blt => .branch .lt
  | bge => .branch .ge
  | bltu => .branch .ltu
  | bgeu => .branch .geu
  | jal => .jal
  | jalr => .jalr
  | lui => .lui
  | auipc => .auipc
  | hlt => .halt

/-- The mnemonic of an operation. -/
def Operation.mnemonic : Operation → Mnemonic
  | op .add => .add
  | op .sub => .sub
  | op .sll => .sll
  | op .slt => .slt
  | op .sltu => .sltu
  | op .xor => .xor
  | op .srl => .srl
  | op .sra => .sra
  | op .or => .or
  | op .and => .and
  | opImm .add => .addi
  | opImm .slt => .slti
  | opImm .sltu => .sltiu
  | opImm .xor => .xori
  | opImm .or => .ori
  | opImm .and => .andi
  | shiftImm .sll => .slli
  | shiftImm .srl => .srli
  | shiftImm .sra => .srai
  | load .byte => .lb
  | load .half => .lh
  | load .word => .lw
  | load .byteUnsigned => .lbu
  | load .halfUnsigned => .lhu
  | store .byte => .sb
  | store .half => .sh
  | store .word => .sw
  | branch .eq => .beq
  | branch .ne => .bne
  | branch .lt => .blt
  | branch .ge => .bge
  | branch .ltu => .bltu
  | branch .geu => .bgeu
  | jal => .jal
  | jalr => .jalr
  | lui => .lui
  | auipc => .auipc
  | halt => .hlt

@[simp] theorem Mnemonic.mnemonic_operation (m : Mnemonic) : m.operation.mnemonic = m := by
  cases m <;> rfl

@[simp] theorem Operation.operation_mnemonic (o : Operation) : o.mnemonic.operation = o := by
  cases o with
  | op o => cases o <;> rfl
  | opImm o => cases o <;> rfl
  | shiftImm o => cases o <;> rfl
  | load o => cases o <;> rfl
  | store w => cases w <;> rfl
  | branch c => cases c <;> rfl
  | _ => rfl

/-! ## 2. Instructions -/

/-- An instruction that is ready to execute. Offsets count bytes. -/
inductive Instruction
  | op (op : AluOp) (rd rs1 rs2 : Reg)
  | opImm (op : ImmOp) (rd rs1 : Reg) (imm : Word)
  | shiftImm (op : ShiftOp) (rd rs1 : Reg) (shamt : Fin 32)
  | load (op : LoadOp) (rd rs1 : Reg) (offset : Word)
  | store (width : Width) (rs1 rs2 : Reg) (offset : Word)
  | branch (cond : Cond) (rs1 rs2 : Reg) (offset : Word)
  | jal (rd : Reg) (offset : Word)
  | jalr (rd rs1 : Reg) (offset : Word)
  | lui (rd : Reg) (imm : Word)
  | auipc (rd : Reg) (imm : Word)
  | halt
deriving DecidableEq

namespace Instruction

/-- The operation of an instruction. -/
def operation : Instruction → Operation
  | op o _ _ _ => .op o
  | opImm o _ _ _ => .opImm o
  | shiftImm o _ _ _ => .shiftImm o
  | load o _ _ _ => .load o
  | store w _ _ _ => .store w
  | branch c _ _ _ => .branch c
  | jal _ _ => .jal
  | jalr _ _ _ => .jalr
  | lui _ _ => .lui
  | auipc _ _ => .auipc
  | halt => .halt

/-- The mnemonic of an instruction. -/
def mnemonic (i : Instruction) : Mnemonic :=
  i.operation.mnemonic

/-! ## 3. Canonical text -/

/-- The operands of an instruction in canonical text. An upper immediate is shown as its 20-bit
    field. -/
def operandText : Instruction → String
  | op _ rd rs1 rs2 => " " ++ Reg.number rd ++ ", " ++ Reg.number rs1 ++ ", " ++ Reg.number rs2
  | opImm _ rd rs1 imm => " " ++ Reg.number rd ++ ", " ++ Reg.number rs1 ++ ", " ++ signed imm.toInt
  | shiftImm _ rd rs1 shamt =>
    " " ++ Reg.number rd ++ ", " ++ Reg.number rs1 ++ ", " ++ decimal shamt
  | load _ rd rs1 offset => based rd offset rs1
  | store _ rs1 rs2 offset => based rs2 offset rs1
  | branch _ rs1 rs2 offset =>
    " " ++ Reg.number rs1 ++ ", " ++ Reg.number rs2 ++ ", " ++ signed offset.toInt
  | jal rd offset => " " ++ Reg.number rd ++ ", " ++ signed offset.toInt
  | jalr rd rs1 offset => based rd offset rs1
  | lui rd imm | auipc rd imm => " " ++ Reg.number rd ++ ", 0x" ++ hex (imm >>> 12).toNat
  | halt => ""
where
  /-- A register and an address given as an offset from a base register. -/
  based (r : Reg) (offset : Word) (base : Reg) : String :=
    " " ++ Reg.number r ++ ", " ++ signed offset.toInt ++ "(" ++ Reg.number base ++ ")"

/-- The instruction in canonical assembly text. -/
def listing (i : Instruction) : String :=
  i.mnemonic.spelling ++ i.operandText

end Instruction

end Rv32i
