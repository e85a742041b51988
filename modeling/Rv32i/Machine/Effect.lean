import Rv32i.Machine.Hart

/-!
# What an instruction does

Executing an instruction has two parts. `Instruction.effect` reads the hart and finds out what the
instruction will do, or why it faults; `Hart.apply` then does it and cannot fail. So a fault
leaves the hart as it was.

Arithmetic wraps at 32 bits. Code addresses that a program sees (links, `auipc`, the targets of
`jalr`) are byte addresses, four to a slot.
-/

namespace Rv32i

open Text

/-! ## 1. Arithmetic -/

/-- A word that is one if the condition holds and zero otherwise. -/
def Word.ofBool (b : Bool) : Word :=
  if b then 1 else 0

namespace ShiftOp

/-- A word shifted by an amount below 32. -/
def apply (op : ShiftOp) (a : Word) (amount : Nat) : Word :=
  match op with
  | sll => a <<< amount
  | srl => a >>> amount
  | sra => a.sshiftRight amount

end ShiftOp

namespace AluOp

/-- The result of a register operation. Shifts use the low five bits of the second operand. -/
def apply (op : AluOp) (a b : Word) : Word :=
  match op with
  | add => a + b
  | sub => a - b
  | sll => ShiftOp.sll.apply a (b.toNat % 32)
  | slt => Word.ofBool (a.slt b)
  | sltu => Word.ofBool (a.ult b)
  | xor => a ^^^ b
  | srl => ShiftOp.srl.apply a (b.toNat % 32)
  | sra => ShiftOp.sra.apply a (b.toNat % 32)
  | or => a ||| b
  | and => a &&& b

end AluOp

namespace LoadOp

/-- The register value of a loaded, zero-extended value. -/
def extend (op : LoadOp) (value : Word) : Word :=
  match op with
  | byte => Word.signField 8 value
  | half => Word.signField 16 value
  | word | byteUnsigned | halfUnsigned => value

end LoadOp

namespace Cond

/-- The condition holds of two register values. -/
def holds (cond : Cond) (a b : Word) : Bool :=
  match cond with
  | eq => a == b
  | ne => a != b
  | lt => a.slt b
  | ge => !a.slt b
  | ltu => a.ult b
  | geu => !a.ult b

end Cond

/-! ## 2. Effects and faults -/

/-- What an instruction does to a hart. -/
inductive Effect
  /-- A register gets a value, and control goes to a slot. -/
  | write (rd : Reg) (value next : Word)
  /-- The low bytes of a value go to memory, and control to the next slot. -/
  | store (width : Width) (addr value : Word)
  /-- Control goes to a slot. -/
  | goto (next : Word)
  /-- The hart halts where it is. -/
  | halt
deriving DecidableEq

/-- Why an instruction does nothing. -/
inductive Fault
  | access (fault : AccessFault)
  /-- A jump to a slot before the first one. -/
  | jumpTarget (slot : Int)
deriving DecidableEq

/-- The wording of a fault. -/
def Fault.message : Fault → String
  | access fault => "memory access violation: " ++ fault.message
  | jumpTarget slot =>
    "jump target slot " ++ signed slot ++ " is before the start of the program"

/-! ## 3. Execution -/

namespace Hart

/-- The slot that a byte offset from the current slot leads to. The offset counts in whole slots,
    rounded toward zero; a slot past the largest word is outside every program, and so is the
    largest word. -/
def relativeSlot (h : Hart) (offset : Word) : Except Fault Word :=
  let slot : Int := h.pc.toNat + offset.toInt.tdiv 4
  if slot < 0 then .error (.jumpTarget slot)
  else .ok (BitVec.ofNat 32 (min slot.toNat (2 ^ 32 - 1)))

/-- The hart after an effect. -/
def apply (h : Hart) : Effect → Hart
  | .write rd value next => { h.setReg rd value with pc := next }
  | .store width addr value =>
    { h with memory := h.memory.poke width addr.toNat value, pc := h.nextSlot }
  | .goto next => { h with pc := next }
  | .halt => h.halt

end Hart

namespace Instruction

/-- What an instruction does to a hart, or why it does nothing. -/
def effect (h : Hart) : Instruction → Except Fault Effect
  | .op o rd rs1 rs2 => .ok (.write rd (o.apply (h.reg rs1) (h.reg rs2)) h.nextSlot)
  | .opImm o rd rs1 imm => .ok (.write rd (o.toAluOp.apply (h.reg rs1) imm) h.nextSlot)
  | .shiftImm o rd rs1 shamt => .ok (.write rd (o.apply (h.reg rs1) shamt) h.nextSlot)
  | .load o rd rs1 offset =>
    match h.memory.load o.width (h.reg rs1 + offset) with
    | .ok value => .ok (.write rd (o.extend value) h.nextSlot)
    | .error fault => .error (.access fault)
  | .store width rs1 rs2 offset =>
    let addr := h.reg rs1 + offset
    match h.memory.fault? width addr with
    | none => .ok (.store width addr (h.reg rs2))
    | some fault => .error (.access fault)
  | .branch cond rs1 rs2 offset =>
    if cond.holds (h.reg rs1) (h.reg rs2) then (h.relativeSlot offset).map .goto
    else .ok (.goto h.nextSlot)
  | .jal rd offset => (h.relativeSlot offset).map (.write rd h.linkAddress)
  | .jalr rd rs1 offset =>
    let addr := (h.reg rs1 + offset) &&& ~~~1
    .ok (.write rd h.linkAddress (addr >>> 2))
  | .lui rd imm => .ok (.write rd imm h.nextSlot)
  | .auipc rd imm => .ok (.write rd (h.pcAddress + imm) h.nextSlot)
  | .halt => .ok .halt

/-- The hart after an instruction, or why there is none. -/
def execute (i : Instruction) (h : Hart) : Except Fault Hart :=
  (i.effect h).map h.apply

end Instruction

end Rv32i
