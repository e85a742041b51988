import Rv32i.Isa.Instruction
import Std.Data.ExtTreeMap

/-!
# Memory

A memory is a fixed number of bytes, all zero at first. Accesses are one, two or four bytes wide
and little-endian. Only the bytes that are not zero are kept, so a memory costs what was written to
it and not what it could hold.

* `Memory.byte` is the view: the byte at an address, zero outside the memory. Two memories of one
  size with the same bytes are equal (`Memory.ext_byte`);
* `Memory.fault?` says why an access is refused: a misaligned address first, then one whose last
  byte lies outside the memory;
* `Memory.peek` and `Memory.poke` access without asking, `Memory.load` and `Memory.store` ask
  first;
* `Memory.nonzero` lists the bytes that are not zero.
-/

namespace Rv32i

open Text

/-! ## 1. Refused accesses -/

/-- Why an access is refused. -/
inductive AccessFault
  | misaligned (addr : Word) (width : Width)
  | outOfBounds (addr : Word) (width : Width) (size : Nat)
deriving DecidableEq

/-- The wording of a refused access. -/
def AccessFault.message : AccessFault → String
  | misaligned addr width =>
    "misaligned " ++ decimal width.bytes ++ "-byte access at address 0x" ++ hex addr.toNat
  | outOfBounds addr width size =>
    decimal width.bytes ++ "-byte access at address 0x" ++ hex addr.toNat ++
      " is out of bounds (memory size 0x" ++ hex size ++ ")"

/-! ## 2. Bytes -/

/-- A memory: its size, and the bytes that are not zero by address. -/
structure Memory where
  size : Nat
  cells : Std.ExtTreeMap Nat Byte
  lt_size : ∀ addr : Nat, addr ∈ cells → addr < size
  ne_zero : ∀ addr : Nat, cells[addr]? ≠ some 0
deriving DecidableEq

/-- A byte that is not zero, with its address. -/
structure Cell where
  address : Word
  value : Byte
deriving DecidableEq

namespace Memory

/-- The memory of a size with every byte zero. -/
def zero (size : Nat) : Memory :=
  ⟨size, ∅, by simp, by simp⟩

/-- The byte at an address. -/
def byte (m : Memory) (addr : Nat) : Byte :=
  m.cells[addr]?.getD 0

/-- The memory with another byte at an address. Outside the memory nothing changes. -/
def setByte (m : Memory) (addr : Nat) (value : Byte) : Memory :=
  if lt : addr < m.size then
    if nz : value = 0 then
      { m with
        cells := m.cells.erase addr
        lt_size := fun a ha => m.lt_size a (Std.ExtTreeMap.mem_of_mem_erase ha)
        ne_zero := fun a ha => by
          rw [Std.ExtTreeMap.getElem?_erase] at ha
          split at ha
          · cases ha
          · exact m.ne_zero a ha }
    else
      { m with
        cells := m.cells.insert addr value
        lt_size := fun a ha => by
          rcases Std.ExtTreeMap.mem_insert.mp ha with h | h
          · rw [Std.LawfulEqCmp.eq_of_compare h] at lt
            exact lt
          · exact m.lt_size a h
        ne_zero := fun a ha => by
          rw [Std.ExtTreeMap.getElem?_insert] at ha
          split at ha
          · exact nz (Option.some.inj ha)
          · exact m.ne_zero a ha }
  else m

/-- The memory with every byte zero. -/
def clear (m : Memory) : Memory :=
  zero m.size

@[simp] theorem size_zero (n : Nat) : (zero n).size = n := rfl

@[simp] theorem size_setByte (m : Memory) (addr : Nat) (value : Byte) :
    (m.setByte addr value).size = m.size := by
  unfold setByte
  split
  · split <;> rfl
  · rfl

@[simp] theorem size_clear (m : Memory) : m.clear.size = m.size := rfl

@[simp] theorem byte_zero (n addr : Nat) : (zero n).byte addr = 0 := by
  simp [zero, byte]

/-- Outside the memory every byte reads as zero. -/
theorem byte_of_size_le (m : Memory) {addr : Nat} (h : m.size ≤ addr) : m.byte addr = 0 := by
  have : addr ∉ m.cells := fun ha => absurd (m.lt_size addr ha) (by omega)
  simp [byte, Std.ExtTreeMap.getElem?_eq_none this]

/-- A byte is kept exactly if it is not zero. -/
theorem getElem?_cells (m : Memory) (addr : Nat) :
    m.cells[addr]? = if m.byte addr = 0 then none else some (m.byte addr) := by
  unfold byte
  cases h : m.cells[addr]? with
  | none => simp
  | some value =>
    have : value ≠ 0 := fun e => m.ne_zero addr (e ▸ h)
    rw [Option.getD_some, if_neg this]

/-- **A memory is its size and its bytes.** -/
theorem ext_byte {m n : Memory} (size : m.size = n.size)
    (bytes : ∀ addr, m.byte addr = n.byte addr) : m = n := by
  have cells : m.cells = n.cells := by
    apply Std.ExtTreeMap.ext_getElem?
    intro addr
    rw [getElem?_cells, getElem?_cells, bytes]
  cases m
  cases n
  simp only at size cells
  subst size cells
  rfl

/-- **One byte changes**: the byte at the address is the new one, every other byte stays. -/
theorem byte_setByte (m : Memory) (addr : Nat) (value : Byte) (a : Nat) :
    (m.setByte addr value).byte a = if a = addr ∧ addr < m.size then value else m.byte a := by
  unfold setByte
  by_cases lt : addr < m.size
  · by_cases e : addr = a
    · subst e
      by_cases nz : value = 0 <;> rw [dif_pos lt] <;> simp_all [byte]
    · have e' : a ≠ addr := fun h => e h.symm
      by_cases nz : value = 0
      · rw [dif_pos lt, dif_pos nz]
        simp [byte, Std.ExtTreeMap.getElem?_erase, e, e']
      · rw [dif_pos lt, dif_neg nz]
        simp [byte, Std.ExtTreeMap.getElem?_insert, e, e']
  · simp [lt]

/-! ## 3. Little-endian values -/

/-- The bytes at an address and after it, as a little-endian number. -/
def peekNat (m : Memory) (addr : Nat) : Nat → Nat
  | 0 => 0
  | n + 1 => (m.byte addr).toNat + 256 * m.peekNat (addr + 1) n

/-- The little-endian value of an access, zero-extended. -/
def peek (m : Memory) (width : Width) (addr : Nat) : Word :=
  BitVec.ofNat 32 (m.peekNat addr width.bytes)

/-- The memory with the low bytes of a number at an address and after it. -/
def pokeNat (m : Memory) (addr value : Nat) : Nat → Memory
  | 0 => m
  | n + 1 => (m.setByte addr (BitVec.ofNat 8 value)).pokeNat (addr + 1) (value / 256) n

/-- The memory with the low bytes of a word at an address and after it. -/
def poke (m : Memory) (width : Width) (addr : Nat) (value : Word) : Memory :=
  m.pokeNat addr value.toNat width.bytes

/-! ## 4. Accesses -/

/-- Why an access of a width is refused at an address, if it is. -/
def fault? (m : Memory) (width : Width) (addr : Word) : Option AccessFault :=
  if addr.toNat % width.bytes ≠ 0 then some (.misaligned addr width)
  else if m.size < addr.toNat + width.bytes then some (.outOfBounds addr width m.size)
  else none

/-- The zero-extended value at an address. -/
def load (m : Memory) (width : Width) (addr : Word) : Except AccessFault Word :=
  match m.fault? width addr with
  | some fault => .error fault
  | none => .ok (m.peek width addr.toNat)

/-- The memory with the low bytes of a word stored at an address. -/
def store (m : Memory) (width : Width) (addr value : Word) : Except AccessFault Memory :=
  match m.fault? width addr with
  | some fault => .error fault
  | none => .ok (m.poke width addr.toNat value)

/-! ## 5. Views -/

/-- The bytes from an address on, if they all lie in the memory. -/
def slice? (m : Memory) (addr length : Nat) : Option (List Byte) :=
  if addr + length ≤ m.size then some ((List.range' addr length).map m.byte) else none

/-- The bytes that are not zero, in address order. -/
def nonzero (m : Memory) : List Cell :=
  m.cells.toList.map fun (addr, value) => ⟨BitVec.ofNat 32 addr, value⟩

end Memory

end Rv32i
