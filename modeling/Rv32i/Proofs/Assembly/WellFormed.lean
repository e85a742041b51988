import Rv32i.Proofs.Assembly.Forms

/-!
# What is assembled is what is decoded

The table of formats is used twice. `Statement.readOperands` takes the operands of a format off a
text and checks their ranges; `Record.withOperands` asks a record for the operands of a format and
reads them again. Here the two are shown to agree.

* `Record.WellFormed`: a record with exactly the operands of its format, each in its range;
  `Statement.Read.wellFormed` says that every record that was read is one;
* `Record.CarriedBy`: the instruction has the operands of the record;
* `Record.WellFormed.decode_of_fits`: a well-formed record is carried by what it decodes to, but for
  shift amounts above 31 and odd offsets, which a source may write;
* `parsed_records_decode`: the records of a source, in their places, are well formed.
-/

namespace Rv32i

open Text

/-! ## 1. Well-formed records -/

namespace Record

/-- The register that a record has for an operand. -/
def registerAt (r : Record) : Operand → Option Byte
  | .rd => r.rd
  | .rs1 => r.rs1
  | .rs2 => r.rs2
  | .imm | .label => none

theorem has_register (r : Record) {operand : Operand}
    (isRegister : operand ∈ [Operand.rd, .rs1, .rs2]) :
    r.has operand = (r.registerAt operand).isSome := by
  cases operand with
  | rd => rfl
  | rs1 => rfl
  | rs2 => rfl
  | imm => simp at isRegister
  | label => simp at isRegister

/-- An operand that is there only if the format takes it is not there if it does not. -/
theorem has_eq_false {r : Record} {f : Format} {operand : Operand}
    (own : r.has operand = true → f.takes operand = true) (lacks : f.takes operand = false) :
    r.has operand = false := by
  cases present : r.has operand with
  | false => rfl
  | true =>
    have taken := own present
    rw [lacks] at taken
    cases taken

theorem registerAt_eq_none_of_absent {r : Record} {operand : Operand}
    (isRegister : operand ∈ [Operand.rd, .rs1, .rs2]) (absent : r.has operand = false) :
    r.registerAt operand = none := by
  rw [r.has_register isRegister] at absent
  exact Option.isNone_iff_eq_none.mp (Option.isSome_eq_false_iff.mp absent)

theorem imm_eq_none_of_absent {r : Record} (absent : r.has .imm = false) : r.imm = none :=
  Option.isNone_iff_eq_none.mp (Option.isSome_eq_false_iff.mp absent)

/-- **A record with exactly the operands of its format**, each in its range. A label may be left
    out, and only branches and jumps take one. -/
structure WellFormed (r : Record) : Prop where
  format : r.format = r.opcode.format
  own : ∀ operand, r.has operand = true → r.format.takes operand = true
  complete : ∀ operand, operand ≠ .label → r.format.takes operand = true → r.has operand = true
  registers : ∀ operand byte, r.registerAt operand = some byte → byte.toNat < 32
  imm : ∀ field imm, r.format.field? = some field → r.imm = some imm →
    field.admits imm.toInt = true

/-- A record is well formed if it has the operands in the row of its format, its registers have
    numbers of registers and its immediate lies in the field. -/
theorem wellFormed_of_row {r : Record} {f : Format} (format : r.format = r.opcode.format)
    (belongs : r.opcode.format = f)
    (row : (Operand.all.all fun operand =>
      operand = .label || r.has operand == f.takes operand) = true)
    (label : r.label = none ∨ f.takes .label = true) (rd rs1 rs2 : Option Reg)
    (hrd : r.rd = rd.map Reg.toByte) (hrs1 : r.rs1 = rs1.map Reg.toByte)
    (hrs2 : r.rs2 = rs2.map Reg.toByte)
    (imm : ∀ field imm, f.field? = some field → r.imm = some imm →
      field.admits imm.toInt = true) : r.WellFormed := by
  have takes : ∀ operand, operand ≠ .label → r.has operand = f.takes operand := by
    intro operand ne
    have here := List.all_eq_true.mp row operand operand.mem_all
    rcases Bool.or_eq_true_iff.mp here with h | h
    · exact absurd (of_decide_eq_true h) ne
    · exact beq_iff_eq.mp h
  have bound : ∀ (reg : Option Reg) byte, reg.map Reg.toByte = some byte → byte.toNat < 32 := by
    intro reg byte h
    obtain ⟨reg, -, rfl⟩ := Option.map_eq_some_iff.mp h
    rw [Reg.toNat_toByte]
    exact reg.isLt
  rw [belongs] at format
  constructor
  · rw [format, belongs]
  · intro operand present
    rw [format]
    by_cases e : operand = .label
    · subst e
      rcases label with unlabelled | taken
      · replace present : r.label.isSome = true := present
        rw [unlabelled] at present
        cases present
      · exact taken
    · exact takes operand e ▸ present
  · intro operand ne taken
    rw [format] at taken
    exact (takes operand ne).trans taken
  · intro operand byte recorded
    cases operand with
    | rd => exact bound rd byte (hrd ▸ recorded)
    | rs1 => exact bound rs1 byte (hrs1 ▸ recorded)
    | rs2 => exact bound rs2 byte (hrs2 ▸ recorded)
    | imm => cases recorded
    | label => cases recorded
  · intro field w expected recorded
    rw [format] at expected
    exact imm field w expected recorded

end Record

/-- **Every form of a record is well formed.** -/
theorem Statement.Read.wellFormed {labels : LabelTable} {m : Mnemonic} {slot line : Nat}
    {source : String} {r : Record} (h : Read labels (.bare m slot line source) r) :
    r.WellFormed := by
  cases h with
  | registers rd rs1 rs2 format =>
    refine Record.wellFormed_of_row rfl format rfl (.inl rfl) (some rd) (some rs1) (some rs2)
      rfl rfl rfl ?_
    intro field imm expected
    cases expected
  | immediate rd rs1 format fits =>
    rcases format with format | format | format
    all_goals
      refine Record.wellFormed_of_row rfl format rfl (.inl rfl) (some rd) (some rs1) none
        rfl rfl rfl ?_
      intro field imm expected recorded
      cases expected
      cases recorded
      exact fits
  | store rs1 rs2 format fits =>
    refine Record.wellFormed_of_row rfl format rfl (.inl rfl) none (some rs1) (some rs2)
      rfl rfl rfl ?_
    intro field imm expected recorded
    cases expected
    cases recorded
    exact fits
  | branch rs1 rs2 format read =>
    refine Record.wellFormed_of_row rfl format rfl (.inr rfl) none (some rs1) (some rs2)
      rfl rfl rfl ?_
    intro field imm expected recorded
    cases expected
    cases recorded
    exact Operands.target_eq_ok (Field.narrow_signed (by decide)) read
  | jump rd format read =>
    refine Record.wellFormed_of_row rfl format rfl (.inr rfl) (some rd) none none rfl rfl rfl ?_
    intro field imm expected recorded
    cases expected
    cases recorded
    exact Operands.target_eq_ok (Field.narrow_signed (by decide)) read
  | upper rd format fits =>
    refine Record.wellFormed_of_row rfl format rfl (.inl rfl) (some rd) none none rfl rfl rfl ?_
    intro field imm expected recorded
    cases expected
    cases recorded
    exact fits
  | halt format =>
    refine Record.wellFormed_of_row rfl format rfl (.inl rfl) none none none rfl rfl rfl ?_
    intro field imm expected
    cases expected

/-! ## 2. Instructions that carry a record -/

/-- The register that an instruction has for an operand. -/
def Instruction.registerAt (i : Instruction) : Operand → Option Reg
  | .rd => match i with
    | op _ rd _ _ | opImm _ rd _ _ | shiftImm _ rd _ _ | load _ rd _ _ | jal rd _ | jalr rd _ _
    | lui rd _ | auipc rd _ => some rd
    | store .. | branch .. | halt => none
  | .rs1 => match i with
    | op _ _ rs1 _ | opImm _ _ rs1 _ | shiftImm _ _ rs1 _ | load _ _ rs1 _ | store _ rs1 _ _
    | branch _ rs1 _ _ | jalr _ rs1 _ => some rs1
    | jal .. | lui .. | auipc .. | halt => none
  | .rs2 => match i with
    | op _ _ _ rs2 | store _ _ rs2 _ | branch _ _ rs2 _ => some rs2
    | opImm .. | shiftImm .. | load .. | jal .. | jalr .. | lui .. | auipc .. | halt => none
  | .imm | .label => none

/-- The word that an instruction has for its immediate. -/
def Instruction.immediate? : Instruction → Option Word
  | opImm _ _ _ imm | lui _ imm | auipc _ imm => some imm
  | shiftImm _ _ _ shamt => some (BitVec.ofNat 32 shamt)
  | load _ _ _ offset | store _ _ _ offset | branch _ _ _ offset | jal _ offset
  | jalr _ _ offset => some offset
  | op .. | halt => none

/-- The word that an immediate of a format stands for: itself, or for an upper immediate its low
    20 bits at the upper end. -/
def Format.placed (f : Format) (imm : Word) : Word :=
  if f = .u then BitVec.ofInt 32 (imm.toInt % 2 ^ 20 * 2 ^ 12) else imm

theorem Format.placed_u (imm : Word) : Format.u.placed imm = imm <<< 12 := by
  have value := BitVec.toInt_eq_toNat_cond imm
  apply BitVec.eq_of_toNat_eq
  rw [Format.placed, if_pos rfl, BitVec.toNat_ofInt, BitVec.toNat_shiftLeft, Nat.shiftLeft_eq]
  split at value <;> omega

namespace Record

/-- **The instruction has the operands of the record**: its registers, and what its immediate
    stands for. -/
structure CarriedBy (r : Record) (i : Instruction) : Prop where
  mnemonic : i.mnemonic = r.opcode
  registers : ∀ operand, r.registerAt operand = (i.registerAt operand).map Reg.toByte
  imm : i.immediate? = r.imm.map r.format.placed

/-- A shift by a constant that is no shift amount. -/
def ShiftsTooFar (r : Record) (imm : Word) : Prop :=
  r.imm = some imm ∧ r.opcode ∈ [Mnemonic.slli, Mnemonic.srli, Mnemonic.srai] ∧
    ¬ (0 ≤ imm.toInt ∧ imm.toInt ≤ 31)

/-- A branch or a jump by an odd offset. -/
def JumpsOddly (r : Record) (imm : Word) : Prop :=
  r.imm = some imm ∧ (r.format = .sb ∨ r.format = .uj) ∧ imm.toInt % 2 = 1

theorem shiftAmount_of_outside {r : Record} {imm : Word} (recorded : r.imm = some imm)
    (outside : ¬ (0 ≤ imm.toInt ∧ imm.toInt ≤ 31)) :
    r.shiftAmount = .error (.shiftOutOfRange imm) := by
  have large : ¬ imm.toNat < 32 := fun small => outside (Word.amount_iff.mp small)
  rw [shiftAmount, rawImm, recorded]
  show dite _ _ _ = _
  rw [dif_neg large]

theorem evenImm_of_odd {r : Record} {bits : Nat} {offset : Word} (recorded : r.imm = some offset)
    (positive : 0 < bits) (le : bits ≤ 32) (h : (Field.signed bits).admits offset.toInt = true)
    (odd : offset.toInt % 2 = 1) : r.evenImm bits = .error (.misalignedOffset r.opcode offset) := by
  have notEven : ¬ offset.toNat % 2 = 0 := fun even => Word.even_iff.mp even odd
  rw [evenImm, signedImm_of_admits recorded positive le h, ok_bind, if_neg notEven]

namespace WellFormed

variable {r : Record} (w : r.WellFormed)

include w

/-- A well-formed record has the shape that decoding asks for. -/
theorem decode_eq :
    r.decode = (r.withOperands r.opcode.operation).mapError fun fault => ⟨r.line, fault⟩ := by
  have own : ∀ operand, r.has operand = true → r.opcode.format.takes operand = true := by
    intro operand present
    exact w.format ▸ w.own operand present
  have shape : r.checkShape = .ok () := checkShape_eq_ok_iff.mpr ⟨w.format, own⟩
  rw [decode, toInstruction, shape]
  rfl

/-- A register that the format takes is there and can be read. -/
theorem register {operand : Operand} (isRegister : operand ∈ [Operand.rd, .rs1, .rs2])
    (taken : r.format.takes operand = true) :
    ∃ reg : Reg, r.registerAt operand = some reg.toByte ∧
      r.register operand (r.registerAt operand) = .ok reg := by
  have ne : operand ≠ .label := by
    intro e
    subst e
    simp at isRegister
  have present := w.complete operand ne taken
  rw [r.has_register isRegister] at present
  obtain ⟨byte, recorded⟩ := Option.isSome_iff_exists.mp present
  have bound := w.registers operand byte recorded
  have number : byte = Reg.toByte ⟨byte.toNat, bound⟩ := by
    apply BitVec.eq_of_toNat_eq
    rw [Reg.toNat_toByte]
  have named := recorded.trans (congrArg some number)
  refine ⟨⟨byte.toNat, bound⟩, named, ?_⟩
  rw [named]
  exact register_toByte r operand _

theorem rd (taken : r.format.takes .rd = true) :
    ∃ rd : Reg, r.rd = some rd.toByte ∧ r.rdReg = .ok rd :=
  w.register (by decide) taken

theorem rs1 (taken : r.format.takes .rs1 = true) :
    ∃ rs1 : Reg, r.rs1 = some rs1.toByte ∧ r.rs1Reg = .ok rs1 :=
  w.register (by decide) taken

theorem rs2 (taken : r.format.takes .rs2 = true) :
    ∃ rs2 : Reg, r.rs2 = some rs2.toByte ∧ r.rs2Reg = .ok rs2 :=
  w.register (by decide) taken

/-- The immediate of a format with a field is there and fits. -/
theorem immediate {field : Field} (expected : r.format.field? = some field) :
    ∃ imm, r.imm = some imm ∧ field.admits imm.toInt = true := by
  have taken : r.format.takes .imm = true := by rw [Format.takes_imm, expected]; rfl
  have present : r.imm.isSome = true := w.complete .imm (by decide) taken
  obtain ⟨imm, recorded⟩ := Option.isSome_iff_exists.mp present
  exact ⟨imm, recorded, w.imm field imm expected recorded⟩

/-- An operand that the format does not take is not there. -/
theorem registerAt_eq_none (operand : Operand) (isRegister : operand ∈ [Operand.rd, .rs1, .rs2])
    (lacks : r.format.takes operand = false) : r.registerAt operand = none :=
  registerAt_eq_none_of_absent isRegister (has_eq_false (w.own operand) lacks)

theorem imm_eq_none (lacks : r.format.takes .imm = false) : r.imm = none :=
  imm_eq_none_of_absent (has_eq_false (w.own .imm) lacks)

theorem format_eq : r.format = r.opcode.operation.format := by
  rw [w.format, ← Operation.format_mnemonic, Mnemonic.mnemonic_operation]

/-- **A shift by too much is refused**, with the amount as it was recorded. -/
theorem decode_of_shiftsTooFar {imm : Word} (far : r.ShiftsTooFar imm) :
    r.decode = .error ⟨r.line, .shiftOutOfRange imm⟩ := by
  obtain ⟨recorded, shifts, outside⟩ := far
  have amount : r.shiftAmount = .error (.shiftOutOfRange imm) :=
    shiftAmount_of_outside recorded outside
  obtain ⟨op, operation⟩ : ∃ op, r.opcode.operation = .shiftImm op := by
    simp only [List.mem_cons, List.not_mem_nil, or_false] at shifts
    rcases shifts with e | e | e
    · exact ⟨.sll, congrArg Mnemonic.operation e⟩
    · exact ⟨.srl, congrArg Mnemonic.operation e⟩
    · exact ⟨.sra, congrArg Mnemonic.operation e⟩
  have format : r.format = .i := by rw [w.format_eq, operation]; rfl
  obtain ⟨rd, -, readsRd⟩ := w.rd (by rw [format]; rfl)
  obtain ⟨rs1, -, readsRs1⟩ := w.rs1 (by rw [format]; rfl)
  rw [w.decode_eq, operation, withOperands, readsRd, readsRs1, amount]
  rfl

/-- **An odd offset is refused.** -/
theorem decode_of_jumpsOddly {imm : Word} (odd : r.JumpsOddly imm) :
    r.decode = .error ⟨r.line, .misalignedOffset r.opcode imm⟩ := by
  obtain ⟨recorded, jumps, odd⟩ := odd
  have format := w.format_eq
  cases operation : r.opcode.operation with
  | branch cond =>
    replace format : r.format = .sb := by rw [format, operation]; rfl
    obtain ⟨rs1, -, readsRs1⟩ := w.rs1 (by rw [format]; rfl)
    obtain ⟨rs2, -, readsRs2⟩ := w.rs2 (by rw [format]; rfl)
    have fits := w.imm (.signed 13) imm (by rw [format]; rfl) recorded
    have offset := evenImm_of_odd recorded (by decide) (by decide) fits odd
    rw [w.decode_eq, operation, withOperands, readsRs1, readsRs2, offset]
    rfl
  | jal =>
    replace format : r.format = .uj := by rw [format, operation]; rfl
    obtain ⟨rd, -, readsRd⟩ := w.rd (by rw [format]; rfl)
    have fits := w.imm (.signed 21) imm (by rw [format]; rfl) recorded
    have offset := evenImm_of_odd recorded (by decide) (by decide) fits odd
    rw [w.decode_eq, operation, withOperands, readsRd, offset]
    rfl
  | _ =>
    rw [operation] at format
    rcases jumps with e | e
    · rw [e] at format
      cases format
    · rw [e] at format
      cases format

/-- A signed immediate is read as it is recorded. -/
theorem reads_signed {bits : Nat} (expected : r.format.field? = some (.signed bits))
    (positive : 0 < bits) (le : bits ≤ 32) (lower : r.format ≠ .u) :
    ∃ imm, r.imm = some imm ∧ some imm = r.imm.map r.format.placed ∧
      r.signedImm bits = .ok imm := by
  obtain ⟨imm, recorded, fits⟩ := w.immediate expected
  have himm : some imm = r.imm.map r.format.placed := by
    rw [recorded, Option.map_some, Format.placed, if_neg lower]
  exact ⟨imm, recorded, himm, signedImm_of_admits recorded positive le fits⟩

/-- An offset that is not odd is read as it is recorded. -/
theorem reads_offset {bits : Nat} (expected : r.format.field? = some (.signed bits))
    (positive : 0 < bits) (le : bits ≤ 32) (jumps : r.format = .sb ∨ r.format = .uj)
    (even : ∀ imm, ¬ r.JumpsOddly imm) :
    ∃ imm, some imm = r.imm.map r.format.placed ∧ r.evenImm bits = .ok imm := by
  have lower : r.format ≠ .u := by
    rcases jumps with format | format
    · rw [format]
      exact nofun
    · rw [format]
      exact nofun
  obtain ⟨imm, recorded, himm, reads⟩ := w.reads_signed expected positive le lower
  have notOdd : ¬ imm.toInt % 2 = 1 := fun odd => even imm ⟨recorded, jumps, odd⟩
  refine ⟨imm, himm, ?_⟩
  rw [evenImm, reads, ok_bind, if_pos (Word.even_iff.mpr notOdd)]
  rfl

omit w in
/-- A shift amount that is not too large is read as it is recorded. -/
theorem reads_amount {op : ShiftOp} (operation : r.opcode.operation = .shiftImm op) {imm : Word}
    (recorded : r.imm = some imm) (near : ∀ imm, ¬ r.ShiftsTooFar imm) :
    ∃ amount : Fin 32, imm = BitVec.ofNat 32 amount ∧ r.shiftAmount = .ok amount := by
  have shifts : r.opcode ∈ [Mnemonic.slli, Mnemonic.srli, Mnemonic.srai] := by
    rw [← r.opcode.mnemonic_operation, operation]
    cases op <;> decide
  have inside : 0 ≤ imm.toInt ∧ imm.toInt ≤ 31 :=
    Decidable.byContradiction fun outside => near imm ⟨recorded, shifts, outside⟩
  have bound : imm.toNat < 32 := Word.amount_iff.mpr inside
  have same : imm = BitVec.ofNat 32 imm.toNat := by simp
  exact ⟨⟨imm.toNat, bound⟩, same, shiftAmount_ofNat bound (recorded.trans (congrArg some same))⟩

/-- Two registers and an immediate of 12 bits are read as they are recorded. -/
theorem reads_immediate (format : r.format = .i ∨ r.format = .il ∨ r.format = .jalr) :
    ∃ (rd rs1 : Reg) (imm : Word), (r.rd = some rd.toByte ∧ r.rs1 = some rs1.toByte ∧
      r.rs2 = none ∧ some imm = r.imm.map r.format.placed) ∧ r.imm = some imm ∧
      r.rdReg = .ok rd ∧ r.rs1Reg = .ok rs1 ∧ r.signedImm 12 = .ok imm := by
  rcases format with format | format | format
  all_goals
    obtain ⟨rd, hrd, readsRd⟩ := w.rd (by rw [format]; rfl)
    obtain ⟨rs1, hrs1, readsRs1⟩ := w.rs1 (by rw [format]; rfl)
    have hrs2 : r.rs2 = none := w.registerAt_eq_none .rs2 (by decide) (by rw [format]; rfl)
    have expected : r.format.field? = some (.signed 12) := by rw [format]; rfl
    have lower : r.format ≠ .u := by rw [format]; exact nofun
    obtain ⟨imm, recorded, himm, readsImm⟩ :=
      w.reads_signed expected (by decide) (by decide) lower
    exact ⟨rd, rs1, imm, ⟨hrd, hrs1, hrs2, himm⟩, recorded, readsRd, readsRs1, readsImm⟩

/-- An upper immediate is read into its place. -/
theorem reads_upper (format : r.format = .u) :
    ∃ (rd : Reg) (imm : Word), (r.rd = some rd.toByte ∧ r.rs1 = none ∧ r.rs2 = none ∧
      some imm = r.imm.map r.format.placed) ∧ r.rdReg = .ok rd ∧ r.upperImm = .ok imm := by
  have expected : r.format.field? = some .upper := by rw [format]; rfl
  obtain ⟨rd, hrd, readsRd⟩ := w.rd (by rw [format]; rfl)
  have hrs1 : r.rs1 = none := w.registerAt_eq_none .rs1 (by decide) (by rw [format]; rfl)
  have hrs2 : r.rs2 = none := w.registerAt_eq_none .rs2 (by decide) (by rw [format]; rfl)
  obtain ⟨imm, recorded, -⟩ := w.immediate expected
  have himm : some (imm <<< 12) = r.imm.map r.format.placed := by
    rw [recorded, format, Option.map_some, Format.placed_u]
  have readsImm : r.upperImm = .ok (imm <<< 12) := by
    rw [upperImm, rawImm, recorded]
    rfl
  exact ⟨rd, imm <<< 12, ⟨hrd, hrs1, hrs2, himm⟩, readsRd, readsImm⟩

omit w in
/-- An instruction carries a record if its operands, one by one, are those of the record. -/
theorem carriedBy {i : Instruction} (operation : r.opcode.operation = i.operation)
    (operands : r.rd = (i.registerAt .rd).map Reg.toByte ∧
      r.rs1 = (i.registerAt .rs1).map Reg.toByte ∧ r.rs2 = (i.registerAt .rs2).map Reg.toByte ∧
      i.immediate? = r.imm.map r.format.placed) : r.CarriedBy i := by
  obtain ⟨rd, rs1, rs2, imm⟩ := operands
  refine ⟨?_, fun operand => ?_, imm⟩
  · rw [Instruction.mnemonic, ← operation, Mnemonic.mnemonic_operation]
  · cases operand with
    | rd => exact rd
    | rs1 => exact rs1
    | rs2 => exact rs2
    | imm => rfl
    | label => rfl

/-- **Every other well-formed record decodes**, to an instruction that carries it. -/
theorem decode_of_fits (near : ∀ imm, ¬ r.ShiftsTooFar imm) (even : ∀ imm, ¬ r.JumpsOddly imm) :
    ∃ i, r.decode = .ok i ∧ r.CarriedBy i := by
  suffices reads : ∃ i, r.withOperands r.opcode.operation = .ok i ∧ r.CarriedBy i by
    obtain ⟨i, reads, carried⟩ := reads
    exact ⟨i, by rw [w.decode_eq, reads]; rfl, carried⟩
  have format := w.format_eq
  cases operation : r.opcode.operation with
  | op op =>
    replace format : r.format = .r := by rw [format, operation]; rfl
    obtain ⟨rd, hrd, readsRd⟩ := w.rd (by rw [format]; rfl)
    obtain ⟨rs1, hrs1, readsRs1⟩ := w.rs1 (by rw [format]; rfl)
    obtain ⟨rs2, hrs2, readsRs2⟩ := w.rs2 (by rw [format]; rfl)
    have himm : none = r.imm.map r.format.placed := by
      rw [w.imm_eq_none (by rw [format]; rfl)]; rfl
    have reads : r.withOperands (.op op) = .ok (.op op rd rs1 rs2) :=
      read_three_eq_ok.mpr ⟨_, _, _, readsRd, readsRs1, readsRs2, rfl⟩
    exact ⟨.op op rd rs1 rs2, reads, carriedBy operation ⟨hrd, hrs1, hrs2, himm⟩⟩
  | opImm op =>
    replace format : r.format = .i := by rw [format, operation]; rfl
    obtain ⟨rd, rs1, imm, operands, -, readsRd, readsRs1, readsImm⟩ :=
      w.reads_immediate (.inl format)
    have reads : r.withOperands (.opImm op) = .ok (.opImm op rd rs1 imm) :=
      read_three_eq_ok.mpr ⟨_, _, _, readsRd, readsRs1, readsImm, rfl⟩
    exact ⟨.opImm op rd rs1 imm, reads, carriedBy operation operands⟩
  | shiftImm op =>
    replace format : r.format = .i := by rw [format, operation]; rfl
    obtain ⟨rd, rs1, imm, operands, recorded, readsRd, readsRs1, -⟩ :=
      w.reads_immediate (.inl format)
    obtain ⟨amount, same, readsAmount⟩ := reads_amount operation recorded near
    have reads : r.withOperands (.shiftImm op) = .ok (.shiftImm op rd rs1 amount) :=
      read_three_eq_ok.mpr ⟨_, _, _, readsRd, readsRs1, readsAmount, rfl⟩
    rw [same] at operands
    exact ⟨.shiftImm op rd rs1 amount, reads, carriedBy operation operands⟩
  | load op =>
    replace format : r.format = .il := by rw [format, operation]; rfl
    obtain ⟨rd, rs1, imm, operands, -, readsRd, readsRs1, readsImm⟩ :=
      w.reads_immediate (.inr (.inl format))
    have reads : r.withOperands (.load op) = .ok (.load op rd rs1 imm) :=
      read_three_eq_ok.mpr ⟨_, _, _, readsRd, readsRs1, readsImm, rfl⟩
    exact ⟨.load op rd rs1 imm, reads, carriedBy operation operands⟩
  | store width =>
    replace format : r.format = .s := by rw [format, operation]; rfl
    have expected : r.format.field? = some (.signed 12) := by rw [format]; rfl
    have hrd : r.rd = none := w.registerAt_eq_none .rd (by decide) (by rw [format]; rfl)
    obtain ⟨rs1, hrs1, readsRs1⟩ := w.rs1 (by rw [format]; rfl)
    obtain ⟨rs2, hrs2, readsRs2⟩ := w.rs2 (by rw [format]; rfl)
    have lower : r.format ≠ .u := by rw [format]; exact nofun
    obtain ⟨imm, -, himm, readsImm⟩ := w.reads_signed expected (by decide) (by decide) lower
    have reads : r.withOperands (.store width) = .ok (.store width rs1 rs2 imm) :=
      read_three_eq_ok.mpr ⟨_, _, _, readsRs1, readsRs2, readsImm, rfl⟩
    exact ⟨.store width rs1 rs2 imm, reads, carriedBy operation ⟨hrd, hrs1, hrs2, himm⟩⟩
  | branch cond =>
    replace format : r.format = .sb := by rw [format, operation]; rfl
    have expected : r.format.field? = some (.signed 13) := by rw [format]; rfl
    have hrd : r.rd = none := w.registerAt_eq_none .rd (by decide) (by rw [format]; rfl)
    obtain ⟨rs1, hrs1, readsRs1⟩ := w.rs1 (by rw [format]; rfl)
    obtain ⟨rs2, hrs2, readsRs2⟩ := w.rs2 (by rw [format]; rfl)
    obtain ⟨imm, himm, readsImm⟩ :=
      w.reads_offset expected (by decide) (by decide) (.inl format) even
    have reads : r.withOperands (.branch cond) = .ok (.branch cond rs1 rs2 imm) :=
      read_three_eq_ok.mpr ⟨_, _, _, readsRs1, readsRs2, readsImm, rfl⟩
    exact ⟨.branch cond rs1 rs2 imm, reads, carriedBy operation ⟨hrd, hrs1, hrs2, himm⟩⟩
  | jal =>
    replace format : r.format = .uj := by rw [format, operation]; rfl
    have expected : r.format.field? = some (.signed 21) := by rw [format]; rfl
    obtain ⟨rd, hrd, readsRd⟩ := w.rd (by rw [format]; rfl)
    have hrs1 : r.rs1 = none := w.registerAt_eq_none .rs1 (by decide) (by rw [format]; rfl)
    have hrs2 : r.rs2 = none := w.registerAt_eq_none .rs2 (by decide) (by rw [format]; rfl)
    obtain ⟨imm, himm, readsImm⟩ :=
      w.reads_offset expected (by decide) (by decide) (.inr format) even
    have reads : r.withOperands .jal = .ok (.jal rd imm) :=
      read_two_eq_ok.mpr ⟨_, _, readsRd, readsImm, rfl⟩
    exact ⟨.jal rd imm, reads, carriedBy operation ⟨hrd, hrs1, hrs2, himm⟩⟩
  | jalr =>
    replace format : r.format = .jalr := by rw [format, operation]; rfl
    obtain ⟨rd, rs1, imm, operands, -, readsRd, readsRs1, readsImm⟩ :=
      w.reads_immediate (.inr (.inr format))
    have reads : r.withOperands .jalr = .ok (.jalr rd rs1 imm) :=
      read_three_eq_ok.mpr ⟨_, _, _, readsRd, readsRs1, readsImm, rfl⟩
    exact ⟨.jalr rd rs1 imm, reads, carriedBy operation operands⟩
  | lui =>
    replace format : r.format = .u := by rw [format, operation]; rfl
    obtain ⟨rd, imm, operands, readsRd, readsImm⟩ := w.reads_upper format
    have reads : r.withOperands .lui = .ok (.lui rd imm) :=
      read_two_eq_ok.mpr ⟨_, _, readsRd, readsImm, rfl⟩
    exact ⟨.lui rd imm, reads, carriedBy operation operands⟩
  | auipc =>
    replace format : r.format = .u := by rw [format, operation]; rfl
    obtain ⟨rd, imm, operands, readsRd, readsImm⟩ := w.reads_upper format
    have reads : r.withOperands .auipc = .ok (.auipc rd imm) :=
      read_two_eq_ok.mpr ⟨_, _, readsRd, readsImm, rfl⟩
    exact ⟨.auipc rd imm, reads, carriedBy operation operands⟩
  | halt =>
    replace format : r.format = .hlt := by rw [format, operation]; rfl
    have hrd : r.rd = none := w.registerAt_eq_none .rd (by decide) (by rw [format]; rfl)
    have hrs1 : r.rs1 = none := w.registerAt_eq_none .rs1 (by decide) (by rw [format]; rfl)
    have hrs2 : r.rs2 = none := w.registerAt_eq_none .rs2 (by decide) (by rw [format]; rfl)
    have himm : none = r.imm.map r.format.placed := by
      rw [w.imm_eq_none (by rw [format]; rfl)]; rfl
    exact ⟨.halt, rfl, carriedBy operation ⟨hrd, hrs1, hrs2, himm⟩⟩

/-- **A well-formed record fails to decode** exactly for a shift by too much and for an odd
    offset. -/
theorem decode_eq_error_iff {error : DecodeError} :
    r.decode = .error error ↔
      (∃ imm, r.ShiftsTooFar imm ∧ error = ⟨r.line, .shiftOutOfRange imm⟩) ∨
      (∃ imm, r.JumpsOddly imm ∧ error = ⟨r.line, .misalignedOffset r.opcode imm⟩) := by
  constructor
  · intro fails
    by_cases far : ∃ imm, r.ShiftsTooFar imm
    · obtain ⟨imm, far⟩ := far
      have refused := fails.symm.trans (w.decode_of_shiftsTooFar far)
      exact .inl ⟨imm, far, Except.error.inj refused⟩
    · by_cases odd : ∃ imm, r.JumpsOddly imm
      · obtain ⟨imm, odd⟩ := odd
        have refused := fails.symm.trans (w.decode_of_jumpsOddly odd)
        exact .inr ⟨imm, odd, Except.error.inj refused⟩
      · obtain ⟨i, decodes, -⟩ := w.decode_of_fits (not_exists.mp far) (not_exists.mp odd)
        cases fails.symm.trans decodes
  · rintro (⟨imm, far, rfl⟩ | ⟨imm, odd, rfl⟩)
    · exact w.decode_of_shiftsTooFar far
    · exact w.decode_of_jumpsOddly odd

/-- What a well-formed record decodes to carries it. -/
theorem carriedBy_of_decode {i : Instruction} (decodes : r.decode = .ok i) : r.CarriedBy i := by
  have near : ∀ imm, ¬ r.ShiftsTooFar imm := by
    intro imm far
    cases decodes.symm.trans (w.decode_of_shiftsTooFar far)
  have even : ∀ imm, ¬ r.JumpsOddly imm := by
    intro imm odd
    cases decodes.symm.trans (w.decode_of_jumpsOddly odd)
  obtain ⟨j, again, carried⟩ := w.decode_of_fits near even
  cases decodes.symm.trans again
  exact carried

end WellFormed

end Record

/-! ## 3. The records of a source -/

namespace SourceLine

/-- **Records stand on ever later lines.** -/
theorem pairwise_line_of_place {labels : LabelTable} {raws : List (List Char)} {number slot : Nat}
    {results : List (Option Record)}
    (each : (place [] number slot raws).map (assemble labels) = results.map .ok) :
    ((results.filterMap id).map Record.line).Pairwise (· < ·) ∧
      ∀ n ∈ (results.filterMap id).map Record.line, number ≤ n := by
  induction raws generalizing number slot results with
  | nil =>
    cases results with
    | nil => exact ⟨.nil, nofun⟩
    | cons result results => cases each
  | cons raw raws ih =>
    rw [place_cons, List.map_cons] at each
    cases results with
    | nil => cases each
    | cons result results =>
      obtain ⟨here, later⟩ := List.cons.inj each
      obtain ⟨increasing, above⟩ := ih later
      cases result with
      | none => exact ⟨increasing, fun n mem => Nat.le_of_succ_le (above n mem)⟩
      | some r =>
        obtain ⟨m, read⟩ := Statement.read_of_line here
        have line : r.line = number := read.same_place.2.1
        refine ⟨.cons (fun n mem => ?_) increasing, fun n mem => ?_⟩
        · have := above n mem
          omega
        · rcases List.mem_cons.mp mem with rfl | mem
          · exact Nat.le_of_eq line.symm
          · exact Nat.le_of_succ_le (above n mem)

end SourceLine

/-- **Every record of a source is what decoding expects.** The records are numbered from zero and
    stand on ever later lines, which count from one. Each is well formed; it decodes to an
    instruction that carries it, but for shifts by too much and odd offsets. -/
theorem parsed_records_decode {source : String} {program : Program}
    (parsed : Program.parse source = .ok program) :
    (program.records.toList.map Record.line).Pairwise (· < ·) ∧
    ∀ (i : Nat) (r : Record), program.records[i]? = some r →
      r.index = i ∧
      (1 ≤ r.line ∧ ∃ raw, (lines source.toList)[r.line - 1]? = some raw ∧
        r.source = String.ofList (peelLabels (SourceLine.code raw)).statement) ∧
      r.WellFormed ∧
      (∀ error, r.decode = .error error ↔
        (∃ imm, r.ShiftsTooFar imm ∧ error = ⟨r.line, .shiftOutOfRange imm⟩) ∨
        (∃ imm, r.JumpsOddly imm ∧ error = ⟨r.line, .misalignedOffset r.opcode imm⟩)) ∧
      ∀ ins, r.decode = .ok ins → r.CarriedBy ins := by
  obtain ⟨results, each, rfl⟩ := Program.assemble_eq_ok_iff.mp parsed
  refine ⟨(SourceLine.pairwise_line_of_place each).1, fun i r fetched => ?_⟩
  rw [List.getElem?_toArray] at fetched
  obtain ⟨pre, raw, post, split, -, assembled⟩ := SourceLine.record_of_place each fetched
  rw [Nat.zero_add] at assembled
  obtain ⟨m, read⟩ := Statement.read_of_line assembled
  obtain ⟨index, line, written⟩ := read.same_place
  have number : r.line = 1 + pre.length := line
  have there : (lines source.toList)[r.line - 1]? = some raw := by
    rw [number, Nat.add_sub_cancel_left, split, List.getElem?_append_right (Nat.le_refl _),
      Nat.sub_self]
    rfl
  have wf : r.WellFormed := read.wellFormed
  exact ⟨index, ⟨by omega, raw, there, written⟩, wf, fun _ => wf.decode_eq_error_iff,
    fun _ => wf.carriedBy_of_decode⟩

/-- A shift by too much on the first line, behind a blank line an odd offset, and an upper immediate
    that is written with a sign. -/
theorem parsed_records_decode_three :
    let shift : Record :=
      { opcode := .slli, format := .i, index := 0, line := 1, source := "slli x1, x2, 40",
        rd := some 1, rs1 := some 2, imm := some 40 }
    let branch : Record :=
      { opcode := .beq, format := .sb, index := 1, line := 3, source := "beq x1, x2, 3",
        rs1 := some 1, rs2 := some 2, imm := some 3 }
    let upper : Record :=
      { opcode := .lui, format := .u, index := 2, line := 4, source := "lui a0, -1",
        rd := some 10, imm := some (-1) }
    Program.parse "slli x1, x2, 40\n\non: beq x1, x2, 3 # odd\nlui a0, -1" =
        .ok ⟨#[shift, branch, upper], ⟨[⟨"on", 1, 3, 0⟩]⟩⟩ ∧
      shift.decode = .error ⟨1, .shiftOutOfRange 40⟩ ∧
      branch.decode = .error ⟨3, .misalignedOffset .beq 3⟩ ∧
      upper.CarriedBy (.lui 10 0xFFFFF000) := by
  intro shift branch upper
  have parsed : Program.parse "slli x1, x2, 40\n\non: beq x1, x2, 3 # odd\nlui a0, -1" =
      .ok ⟨#[shift, branch, upper], ⟨[⟨"on", 1, 3, 0⟩]⟩⟩ := eq_ok_of_toOption (by decide +kernel)
  obtain ⟨-, each⟩ := parsed_records_decode parsed
  obtain ⟨-, -, -, shiftFails, -⟩ := each 0 shift rfl
  obtain ⟨-, -, -, branchFails, -⟩ := each 1 branch rfl
  obtain ⟨-, -, -, -, carried⟩ := each 2 upper rfl
  have far : shift.ShiftsTooFar 40 := ⟨rfl, by decide, by decide⟩
  have odd : branch.JumpsOddly 3 := ⟨rfl, .inl rfl, by decide⟩
  exact ⟨parsed, (shiftFails _).mpr (.inl ⟨40, far, rfl⟩),
    (branchFails _).mpr (.inr ⟨3, odd, rfl⟩), carried _ rfl⟩

end Rv32i
