import Rv32i.Text.Numeral

/-!
# Words

Registers, immediates and addresses are words of 32 bits, memory cells bytes of 8. A word has two
readings, `BitVec.toNat` and `BitVec.toInt`, and its arithmetic wraps.

* `Word.signField` reads the low bits of a word as a two's complement field;
* `Field` is the range of values that an immediate field may be written with.
-/

namespace Rv32i

/-- A memory cell, or a register number as it stands in a record. -/
abbrev Byte := BitVec 8

/-- A register value, an immediate, an address or an instruction slot. -/
abbrev Word := BitVec 32

/-! ## 1. Sign extension -/

/-- The low `bits` bits of a word, sign-extended to a word. -/
def Word.signField (bits : Nat) (w : Word) : Word :=
  (w.setWidth bits).signExtend 32

/-! ## 2. Immediate fields -/

/-- An immediate field: its width and the values it may be written with. -/
structure Field where
  bits : Nat
  low : Int
  high : Int
deriving DecidableEq

namespace Field

/-- The two's complement field of a width. -/
def signed (bits : Nat) : Field :=
  ⟨bits, -2 ^ (bits - 1), 2 ^ (bits - 1) - 1⟩

/-- The 20-bit upper immediate, which may be written signed or unsigned: `-1` and `0xFFFFF` are
    the same field. -/
def upper : Field :=
  ⟨20, -2 ^ 19, 2 ^ 20 - 1⟩

/-- The field can hold the value. -/
def admits (field : Field) (value : Int) : Bool :=
  field.low ≤ value && value ≤ field.high

theorem admits_iff {field : Field} {value : Int} :
    field.admits value = true ↔ field.low ≤ value ∧ value ≤ field.high := by
  simp [admits]

end Field

end Rv32i
