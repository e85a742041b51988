import Rv32i.Proofs.Assembly.Operands
import Rv32i.Proofs.Assembly.Placement

/-!
# The forms of a record

`Statement.readOperands` takes the operands of a format off a text and checks their ranges.

* `Operands.register_eq_ok`, `Operands.fit_eq_ok` and so on: what is known of an operand that was
  read;
* `Statement.Read`: the forms a record can have once its operands are read, one case each;
  `Statement.read_of_readOperands` says that there are no others, and `Statement.read_of_line` says
  so of the record of a source line.
-/

namespace Rv32i

open Text

/-! ## 1. What operands are read as -/

/-- Every value that fits the field is the value of a word. -/
def Field.Narrow (field : Field) : Prop :=
  -2 ^ 31 ≤ field.low ∧ field.high < 2 ^ 31

theorem Field.narrow_signed {bits : Nat} (le : bits ≤ 32) : (Field.signed bits).Narrow := by
  obtain ⟨low, high⟩ := Field.bounds_of_le le
  exact ⟨low, Int.lt_of_le_sub_one high⟩

theorem Field.narrow_upper : Field.upper.Narrow := by
  have low : Field.upper.low = -2 ^ 19 := rfl
  have high : Field.upper.high = 2 ^ 20 - 1 := rfl
  exact ⟨by omega, by omega⟩

/-- A value that fits a narrow field is the value of its word. -/
theorem Field.Narrow.toInt_ofInt {field : Field} (narrow : field.Narrow) {z : Int}
    (admits : field.admits z = true) : (BitVec.ofInt 32 z).toInt = z := by
  obtain ⟨low, high⟩ := narrow
  obtain ⟨above, below⟩ := Field.admits_iff.mp admits
  exact BitVec.toInt_ofInt_eq_self (by decide) (by omega) (by omega)

namespace Operands

/-- What is read as a register is the number of one. -/
theorem register_eq_ok {part : List Char} {byte : Byte} (h : register part = .ok byte) :
    ∃ r : Reg, byte = r.toByte := by
  obtain ⟨r, -, eq⟩ := register_eq_ok_iff.mp h
  exact ⟨r, eq⟩

/-- A value that fits is the value of its word. -/
theorem fit_eq_ok {field : Field} (narrow : field.Narrow) {value : Int} {imm : Word}
    (h : fit field value = .ok imm) : imm.toInt = value ∧ field.admits imm.toInt = true := by
  obtain ⟨admits, rfl⟩ := fit_eq_ok_iff.mp h
  have same := narrow.toInt_ofInt admits
  exact ⟨same, same.symm ▸ admits⟩

theorem immediate_eq_ok {field : Field} (narrow : field.Narrow) {part : List Char} {imm : Word}
    (h : immediate field part = .ok imm) : field.admits imm.toInt = true := by
  unfold immediate at h
  split at h
  · exact (fit_eq_ok narrow h).2
  · cases h

/-- An offset that is left out is zero, which fits. -/
theorem offset_eq_ok {part : Option (List Char)} {imm : Word} (h : offset part = .ok imm) :
    (Field.signed 12).admits imm.toInt = true := by
  cases part with
  | none =>
    cases h
    rfl
  | some part => exact immediate_eq_ok (Field.narrow_signed (by decide)) h

/-- A target fits its field, whether it is written as an offset or as a label. -/
theorem target_eq_ok {labels : LabelTable} {slot : Nat} {field : Field} (narrow : field.Narrow)
    {part : List Char} {imm : Word} {label : Option String}
    (h : target labels slot field part = .ok (imm, label)) : field.admits imm.toInt = true := by
  unfold target at h
  split at h
  · obtain ⟨w, fits, h⟩ := bind_eq_ok.mp h
    cases h
    exact (fit_eq_ok narrow fits).2
  · dsimp only at h
    split at h
    · split at h
      · obtain ⟨w, fits, h⟩ := bind_eq_ok.mp h
        cases h
        exact (fit_eq_ok narrow fits).2
      · cases h
    · cases h

end Operands

/-! ## 2. The forms of a record -/

/-- **The forms a record can have** once its operands are read. -/
inductive Statement.Read (labels : LabelTable) (base : Record) : Record → Prop
  | registers (rd rs1 rs2 : Reg) (format : base.format = .r) :
      Read labels base
        { base with rd := some rd.toByte, rs1 := some rs1.toByte, rs2 := some rs2.toByte }
  | immediate (rd rs1 : Reg) {imm : Word}
      (format : base.format = .i ∨ base.format = .il ∨ base.format = .jalr)
      (fits : (Field.signed 12).admits imm.toInt = true) :
      Read labels base { base with rd := some rd.toByte, rs1 := some rs1.toByte, imm := some imm }
  | store (rs1 rs2 : Reg) {imm : Word} (format : base.format = .s)
      (fits : (Field.signed 12).admits imm.toInt = true) :
      Read labels base { base with rs1 := some rs1.toByte, rs2 := some rs2.toByte, imm := some imm }
  | branch (rs1 rs2 : Reg) {imm : Word} {label : Option String} {part : List Char}
      (format : base.format = .sb)
      (read : Operands.target labels base.index (.signed 13) part = .ok (imm, label)) :
      Read labels base
        { base with rs1 := some rs1.toByte, rs2 := some rs2.toByte, imm := some imm, label }
  | jump (rd : Reg) {imm : Word} {label : Option String} {part : List Char}
      (format : base.format = .uj)
      (read : Operands.target labels base.index (.signed 21) part = .ok (imm, label)) :
      Read labels base { base with rd := some rd.toByte, imm := some imm, label }
  | upper (rd : Reg) {imm : Word} (format : base.format = .u)
      (fits : Field.upper.admits imm.toInt = true) :
      Read labels base { base with rd := some rd.toByte, imm := some imm }
  | halt (format : base.format = .hlt) : Read labels base base

namespace Statement

open Operands

/-- **There are no other forms.** -/
theorem read_of_readOperands {labels : LabelTable} {base r : Record} {text : List Char}
    (h : readOperands labels base text = .ok r) : Read labels base r := by
  have narrow : (Field.signed 12).Narrow := Field.narrow_signed (by decide)
  -- the cases are the formats in their order: R, I, IL, JALR, S, SB, UJ, U, HLT
  unfold readOperands at h
  dsimp only at h
  split at h
  case h_1 format =>
    obtain ⟨_, -, h⟩ := bind_eq_ok.mp h
    obtain ⟨_, first, h⟩ := bind_eq_ok.mp h
    obtain ⟨_, second, h⟩ := bind_eq_ok.mp h
    obtain ⟨_, third, h⟩ := bind_eq_ok.mp h
    obtain ⟨rd, rfl⟩ := register_eq_ok first
    obtain ⟨rs1, rfl⟩ := register_eq_ok second
    obtain ⟨rs2, rfl⟩ := register_eq_ok third
    cases h
    exact .registers rd rs1 rs2 format
  case h_2 format =>
    obtain ⟨_, -, h⟩ := bind_eq_ok.mp h
    obtain ⟨_, first, h⟩ := bind_eq_ok.mp h
    obtain ⟨_, second, h⟩ := bind_eq_ok.mp h
    obtain ⟨imm, third, h⟩ := bind_eq_ok.mp h
    obtain ⟨rd, rfl⟩ := register_eq_ok first
    obtain ⟨rs1, rfl⟩ := register_eq_ok second
    cases h
    exact .immediate rd rs1 (.inl format) (immediate_eq_ok narrow third)
  case h_3 format =>
    obtain ⟨_, -, h⟩ := bind_eq_ok.mp h
    obtain ⟨_, first, h⟩ := bind_eq_ok.mp h
    obtain ⟨_, second, h⟩ := bind_eq_ok.mp h
    obtain ⟨imm, third, h⟩ := bind_eq_ok.mp h
    obtain ⟨rd, rfl⟩ := register_eq_ok first
    obtain ⟨rs1, rfl⟩ := register_eq_ok second
    cases h
    exact .immediate rd rs1 (.inr (.inl format)) (offset_eq_ok third)
  case h_4 format =>
    obtain ⟨_, -, h⟩ := bind_eq_ok.mp h
    obtain ⟨_, first, h⟩ := bind_eq_ok.mp h
    obtain ⟨_, second, h⟩ := bind_eq_ok.mp h
    obtain ⟨imm, third, h⟩ := bind_eq_ok.mp h
    obtain ⟨rd, rfl⟩ := register_eq_ok first
    obtain ⟨rs1, rfl⟩ := register_eq_ok second
    cases h
    exact .immediate rd rs1 (.inr (.inr format)) (offset_eq_ok third)
  case h_5 format =>
    obtain ⟨_, -, h⟩ := bind_eq_ok.mp h
    obtain ⟨_, first, h⟩ := bind_eq_ok.mp h
    obtain ⟨_, second, h⟩ := bind_eq_ok.mp h
    obtain ⟨imm, third, h⟩ := bind_eq_ok.mp h
    obtain ⟨rs2, rfl⟩ := register_eq_ok first
    obtain ⟨rs1, rfl⟩ := register_eq_ok second
    cases h
    exact .store rs1 rs2 format (offset_eq_ok third)
  case h_6 format =>
    obtain ⟨_, -, h⟩ := bind_eq_ok.mp h
    obtain ⟨_, first, h⟩ := bind_eq_ok.mp h
    obtain ⟨_, second, h⟩ := bind_eq_ok.mp h
    obtain ⟨⟨imm, label⟩, third, h⟩ := bind_eq_ok.mp h
    obtain ⟨rs1, rfl⟩ := register_eq_ok first
    obtain ⟨rs2, rfl⟩ := register_eq_ok second
    cases h
    exact .branch rs1 rs2 format third
  case h_7 format =>
    obtain ⟨_, -, h⟩ := bind_eq_ok.mp h
    obtain ⟨_, first, h⟩ := bind_eq_ok.mp h
    obtain ⟨⟨imm, label⟩, second, h⟩ := bind_eq_ok.mp h
    obtain ⟨rd, rfl⟩ := register_eq_ok first
    cases h
    exact .jump rd format second
  case h_8 format =>
    obtain ⟨_, -, h⟩ := bind_eq_ok.mp h
    obtain ⟨_, first, h⟩ := bind_eq_ok.mp h
    obtain ⟨imm, second, h⟩ := bind_eq_ok.mp h
    obtain ⟨rd, rfl⟩ := register_eq_ok first
    cases h
    exact .upper rd format (immediate_eq_ok Field.narrow_upper second)
  case h_9 format =>
    obtain ⟨_, -, h⟩ := bind_eq_ok.mp h
    cases h
    exact .halt format

/-- Reading the operands leaves the rest of a record alone. -/
theorem Read.same_place {labels : LabelTable} {base r : Record} (h : Read labels base r) :
    r.index = base.index ∧ r.line = base.line ∧ r.source = base.source := by
  cases h <;> exact ⟨rfl, rfl, rfl⟩

end Statement

/-! ## 3. Records of source lines -/

/-- The record of a source line is read from its statement, at its place. -/
theorem Statement.read_of_line {labels : LabelTable} {line : SourceLine} {r : Record}
    (h : line.assemble labels = .ok (some r)) :
    ∃ m, Read labels (.bare m line.slot line.number (String.ofList line.statement)) r := by
  rcases SourceLine.statement?_eq_ok_iff.mp (SourceLine.assemble_eq_ok_iff.mp h).2 with
    ⟨-, none⟩ | ⟨-, _, same, assembled⟩
  · cases none
  · cases same
    unfold assemble at assembled
    dsimp only at assembled
    split at assembled
    · exact ⟨_, read_of_readOperands assembled⟩
    · cases assembled

end Rv32i
