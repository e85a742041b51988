import Rv32i.Isa.Word
import Rv32i.Text.Blank
import Rv32i.Text.Numeral

/-!
# Registers and their names

There are 32 registers. In source text a register is written by number (`x0` to `x31`, without
leading zeros) or by its name in the calling convention; register 8 has the second name `fp`.
Case does not count.

* `Reg.abiName` is the name in the calling convention;
* `Reg.spellings` lists every spelling with the register it names;
* `Reg.ofText?` looks a word up there, with the blanks around it removed.
-/

namespace Rv32i

open Text

/-- A register, by number. -/
abbrev Reg := Fin 32

namespace Reg

/-- What numerals for registers rest on, stated of the zero that they use. -/
instance neZero : @NeZero Nat Zero.ofOfNat0 32 := ⟨by decide⟩

theorem val_lt (r : Reg) : r.val < 32 :=
  r.isLt

/-! ## 1. Names -/

/-- The names of the calling convention, in register order. -/
def abiNames : Vector String 32 :=
  #v["zero", "ra", "sp", "gp", "tp", "t0", "t1", "t2", "s0", "s1", "a0", "a1", "a2", "a3", "a4",
    "a5", "a6", "a7", "s2", "s3", "s4", "s5", "s6", "s7", "s8", "s9", "s10", "s11", "t3", "t4",
    "t5", "t6"]

/-- The name of a register in the calling convention. -/
def abiName (r : Reg) : String :=
  abiNames[r]

/-- The name by number, as in `x7`. -/
def number (r : Reg) : String :=
  "x" ++ decimal r

/-- The name shown for a register number, `?` if there is no such register. -/
def shownName (index : Nat) : String :=
  abiNames[index]?.getD "?"

/-- The register's number as a record holds it. -/
def toByte (r : Reg) : Byte :=
  BitVec.ofNat 8 r

theorem toNat_toByte (r : Reg) : r.toByte.toNat = r.val := by
  have bound := r.isLt
  rw [Reg.toByte, BitVec.toNat_ofNat]
  omega

/-! ## 2. Reading -/

/-- Every spelling of a register in lower case, with the register it names. -/
def spellings : List (List Char × Reg) :=
  (List.finRange 32).map (fun r => ((number r).toList, r)) ++
  (List.finRange 32).map (fun r => ((abiName r).toList, r)) ++
  [("fp".toList, 8)]

/-- The register that a text names. -/
def ofText? (cs : List Char) : Option Reg :=
  spellings.lookup ((trim cs).map Char.toLower)

end Reg

end Rv32i
