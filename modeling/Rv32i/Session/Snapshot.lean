import Rv32i.Assembly.Record
import Rv32i.Machine.Hart

/-!
# Snapshots

A snapshot is the state of a hart as it is exchanged with callers: the registers, the bytes of
memory that are not zero, the program counter and the halted mark. It may carry the program, so
that a step need not parse it again.

A snapshot may come from outside: it may have any number of registers and cells in any order, with
repeated addresses. `Snapshot.restore` checks it and rebuilds the hart; of several cells with one
address the last one counts, as it does in `Snapshot.window`.
-/

namespace Rv32i

open Text

/-- The state of a hart, for exchange. -/
structure Snapshot where
  registers : List Word
  memory : List Cell := []
  pc : Word
  halted : Bool
  instructions : Option (Array Record) := none
deriving DecidableEq

/-- Why a snapshot is no state of a hart. -/
inductive SnapshotError
  | registerCount (found : Nat)
  | addressOutOfRange (address : Word) (size : Nat)
deriving DecidableEq

/-- The wording of an error. -/
def SnapshotError.message : SnapshotError → String
  | registerCount found =>
    "snapshot has " ++ decimal found ++ " registers, expected 32"
  | addressOutOfRange address size =>
    "snapshot memory address 0x" ++ hex address.toNat ++ " is outside the " ++ decimal size ++
      "-byte memory"

namespace Snapshot

/-! ## 1. Taking a snapshot -/

/-- The snapshot of the zeroed state. -/
def zero : Snapshot :=
  { registers := List.replicate 32 0, pc := 0, halted := false }

/-- The snapshot of a hart. -/
def ofHart (h : Hart) : Snapshot :=
  { registers := h.regs.toList, memory := h.memory.nonzero, pc := h.pc, halted := h.halted }

/-- The snapshot with the program. -/
def withInstructions (s : Snapshot) (records : Array Record) : Snapshot :=
  { s with instructions := some records }

/-! ## 2. Restoring -/

/-- The memory with cells written one after the other. The first cell outside it is an error. -/
def writeCells (m : Memory) : List Cell → Except SnapshotError Memory
  | [] => .ok m
  | cell :: cells =>
    if cell.address.toNat < m.size then
      writeCells (m.setByte cell.address.toNat cell.value) cells
    else .error (.addressOutOfRange cell.address m.size)

/-- The hart of a snapshot, with a memory of the given size. Register 0 is zero whatever the
    snapshot says. -/
def restore (s : Snapshot) (memorySize : Nat) : Except SnapshotError Hart :=
  if h : s.registers.length = 32 then do
    let memory ← writeCells (.zero memorySize) s.memory
    return ⟨(Vector.mk s.registers.toArray (by simpa using h)).set 0 0, memory, s.pc, s.halted⟩
  else .error (.registerCount s.registers.length)

/-! ## 3. The start of memory -/

/-- The first `length` bytes of memory that the cells of a snapshot describe. Cells past the end
    count for nothing. -/
def window (s : Snapshot) (length : Nat) : Array Byte :=
  s.memory.foldl (fun bytes cell => bytes.setIfInBounds cell.address.toNat cell.value)
    (Array.replicate length 0)

end Snapshot

end Rv32i
