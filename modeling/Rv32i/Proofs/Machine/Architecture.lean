import Rv32i.Machine.Hart

/-!
# The base instruction set

One instruction of the architecture, told without the machine that executes it. The state is that
of the architecture: 32 registers of which the first is wired to zero, a byte for each of the
2^32 addresses, and the byte address of the instruction. Results are said on the integers that
words stand for, values in memory byte by byte.

* `Arch.step` is what an instruction does when nothing is wrong. `hlt`, which is no instruction of
  the base set, does nothing;
* `Arch.BadAccess` and `Arch.BadJump` say when something is wrong: an access that is misaligned or
  reaches past a memory, a relative jump to an address below zero;
* `Arch.TargetAligned` is the architecture's demand on jumps: targets are multiples of four.
-/

namespace Rv32i

/-- The state of the architecture. -/
@[ext] structure Arch where
  x : Reg → Word
  mem : Word → Byte
  /-- The byte address of the instruction. -/
  pc : Word

namespace Arch

/-! ## 1. Registers and control -/

/-- The value of a register, zero for the first whatever was written. -/
def read (s : Arch) (r : Reg) : Word :=
  if r = 0 then 0 else s.x r

/-- The state after a write to a register other than the first. -/
def write (s : Arch) (rd : Reg) (value : Word) : Arch :=
  { s with x := fun r => if r = rd ∧ r ≠ 0 then value else s.x r }

/-- The state with control at an address. -/
def goto (s : Arch) (target : Word) : Arch :=
  { s with pc := target }

/-- The state with control at the instruction that follows. -/
def next (s : Arch) : Arch :=
  s.goto (s.pc + 4)

/-- An address given as an offset from a base register. -/
def address (s : Arch) (rs1 : Reg) (offset : Word) : Word :=
  .ofInt 32 ((s.read rs1).toInt + offset.toInt)

/-- The target of a jump through a register: the address with its lowest bit cleared. -/
def registerTarget (s : Arch) (rs1 : Reg) (offset : Word) : Word :=
  .ofNat 32 ((s.address rs1 offset).toNat / 2 * 2)

/-! ## 2. Results -/

/-- One for a condition that holds, zero for one that does not. -/
def flag (p : Prop) [Decidable p] : Word :=
  if p then 1 else 0

/-- A word times a power of two. -/
def shiftLeft (a : Word) (n : Nat) : Word :=
  .ofNat 32 (a.toNat * 2 ^ n)

/-- The unsigned quotient by a power of two. -/
def shiftRight (a : Word) (n : Nat) : Word :=
  .ofNat 32 (a.toNat / 2 ^ n)

/-- The signed quotient by a power of two, rounded down. -/
def shiftRightArith (a : Word) (n : Nat) : Word :=
  .ofInt 32 (a.toInt / 2 ^ n)

/-- The amount of a shift by a register: its low five bits. -/
def shiftAmount (b : Word) : Nat :=
  (b.extractLsb' 0 5).toNat

/-- The result of an operation on two registers. -/
def opResult : AluOp → Word → Word → Word
  | .add, a, b => .ofInt 32 (a.toInt + b.toInt)
  | .sub, a, b => .ofInt 32 (a.toInt - b.toInt)
  | .sll, a, b => shiftLeft a (shiftAmount b)
  | .slt, a, b => flag (a.toInt < b.toInt)
  | .sltu, a, b => flag (a.toNat < b.toNat)
  | .xor, a, b => .ofNat 32 (a.toNat ^^^ b.toNat)
  | .srl, a, b => shiftRight a (shiftAmount b)
  | .sra, a, b => shiftRightArith a (shiftAmount b)
  | .or, a, b => .ofNat 32 (a.toNat ||| b.toNat)
  | .and, a, b => .ofNat 32 (a.toNat &&& b.toNat)

/-- The result of an operation on a register and a sign-extended immediate. -/
def immResult : ImmOp → Word → Word → Word
  | .add, a, imm => .ofInt 32 (a.toInt + imm.toInt)
  | .slt, a, imm => flag (a.toInt < imm.toInt)
  | .sltu, a, imm => flag (a.toNat < imm.toNat)
  | .xor, a, imm => .ofNat 32 (a.toNat ^^^ imm.toNat)
  | .or, a, imm => .ofNat 32 (a.toNat ||| imm.toNat)
  | .and, a, imm => .ofNat 32 (a.toNat &&& imm.toNat)

/-- The result of a shift by a constant. -/
def shiftResult : ShiftOp → Word → Nat → Word
  | .sll, a, n => shiftLeft a n
  | .srl, a, n => shiftRight a n
  | .sra, a, n => shiftRightArith a n

/-- A branch is taken. -/
def Taken : Cond → Word → Word → Prop
  | .eq, a, b => a = b
  | .ne, a, b => a ≠ b
  | .lt, a, b => a.toInt < b.toInt
  | .ge, a, b => b.toInt ≤ a.toInt
  | .ltu, a, b => a.toNat < b.toNat
  | .geu, a, b => b.toNat ≤ a.toNat

instance : (cond : Cond) → (a b : Word) → Decidable (Taken cond a b)
  | .eq, a, b => inferInstanceAs (Decidable (a = b))
  | .ne, a, b => inferInstanceAs (Decidable (a ≠ b))
  | .lt, a, b => inferInstanceAs (Decidable (a.toInt < b.toInt))
  | .ge, a, b => inferInstanceAs (Decidable (b.toInt ≤ a.toInt))
  | .ltu, a, b => inferInstanceAs (Decidable (a.toNat < b.toNat))
  | .geu, a, b => inferInstanceAs (Decidable (b.toNat ≤ a.toNat))

/-! ## 3. Memory, little-endian -/

/-- The two bytes from an address on, the one at the higher address in front. -/
def half (s : Arch) (addr : Word) : BitVec 16 :=
  s.mem (addr + 1#32) ++ s.mem addr

/-- The four bytes from an address on. -/
def word (s : Arch) (addr : Word) : Word :=
  s.mem (addr + 3#32) ++ s.mem (addr + 2#32) ++ s.mem (addr + 1#32) ++ s.mem addr

/-- The register value of a load. -/
def loadResult (s : Arch) : LoadOp → Word → Word
  | .byte, addr => (s.mem addr).signExtend 32
  | .half, addr => (s.half addr).signExtend 32
  | .word, addr => s.word addr
  | .byteUnsigned, addr => (s.mem addr).setWidth 32
  | .halfUnsigned, addr => (s.half addr).setWidth 32

/-- The state with another byte at an address. -/
def setByte (s : Arch) (addr : Word) (value : Byte) : Arch :=
  { s with mem := fun a => if a = addr then value else s.mem a }

/-- The state with the low bytes of a value from an address on, the lowest byte first. -/
def store (s : Arch) : Width → Word → Word → Arch
  | .byte, addr, value => s.setByte addr (value.extractLsb' 0 8)
  | .half, addr, value =>
    (s.setByte addr (value.extractLsb' 0 8)).setByte (addr + 1#32) (value.extractLsb' 8 8)
  | .word, addr, value =>
    (((s.setByte addr (value.extractLsb' 0 8)).setByte
      (addr + 1#32) (value.extractLsb' 8 8)).setByte
      (addr + 2#32) (value.extractLsb' 16 8)).setByte
      (addr + 3#32) (value.extractLsb' 24 8)

/-! ## 4. One instruction -/

/-- The state after an instruction. Both operands and the target are read before `rd` is written. -/
def step (s : Arch) : Instruction → Arch
  | .op o rd rs1 rs2 => (s.write rd (opResult o (s.read rs1) (s.read rs2))).next
  | .opImm o rd rs1 imm => (s.write rd (immResult o (s.read rs1) imm)).next
  | .shiftImm o rd rs1 shamt => (s.write rd (shiftResult o (s.read rs1) shamt)).next
  | .load o rd rs1 offset => (s.write rd (s.loadResult o (s.address rs1 offset))).next
  | .store width rs1 rs2 offset => (s.store width (s.address rs1 offset) (s.read rs2)).next
  | .branch cond rs1 rs2 offset =>
    if Taken cond (s.read rs1) (s.read rs2) then s.goto (s.pc + offset) else s.next
  | .jal rd offset => (s.write rd (s.pc + 4)).goto (s.pc + offset)
  | .jalr rd rs1 offset => (s.write rd (s.pc + 4)).goto (s.registerTarget rs1 offset)
  | .lui rd imm => (s.write rd imm).next
  | .auipc rd imm => (s.write rd (s.pc + imm)).next
  | .halt => s

/-! ## 5. What can be wrong -/

/-- The number of bytes that a load reads. -/
def loadBytes : LoadOp → Nat
  | .byte | .byteUnsigned => 1
  | .half | .halfUnsigned => 2
  | .word => 4

/-- The bytes that an instruction touches in memory: how many, and the address of the first. -/
def access? (s : Arch) : Instruction → Option (Nat × Word)
  | .load o _ rs1 offset => some (loadBytes o, s.address rs1 offset)
  | .store width rs1 _ offset => some (width.bytes, s.address rs1 offset)
  | _ => none

/-- The access of an instruction is misaligned, or reaches past a memory of the given size. -/
def BadAccess (s : Arch) (size : Nat) (i : Instruction) : Prop :=
  ∃ bytes addr, s.access? i = some (bytes, addr) ∧
    (addr.toNat % bytes ≠ 0 ∨ size < addr.toNat + bytes)

/-- The instruction jumps to an address below zero. -/
def BadJump (s : Arch) : Instruction → Prop
  | .branch cond rs1 rs2 offset =>
    Taken cond (s.read rs1) (s.read rs2) ∧ s.pc.toNat + offset.toInt < 0
  | .jal _ offset => s.pc.toNat + offset.toInt < 0
  | _ => False

/-- The targets of the instruction's jumps are multiples of four, seen from an aligned address. -/
def TargetAligned (s : Arch) : Instruction → Prop
  | .branch _ _ _ offset | .jal _ offset => offset.toInt % 4 = 0
  | .jalr _ rs1 offset => (s.registerTarget rs1 offset).toNat % 4 = 0
  | _ => True

end Arch

end Rv32i
