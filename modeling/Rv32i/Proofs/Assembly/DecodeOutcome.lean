import Rv32i.Proofs.Assembly.DecodeRules

/-!
# What decodes, and what it decodes to

A record that breaks none of the rules of decoding is described by itself, and so is the
instruction that it decodes to.

* `Record.Decodable`: the record has the operands of its format and no others, with values that an
  instruction can have; `Record.exists_decode_eq_ok_iff` says that those are what decodes;
* `Record.ReadAs`: the instruction has the mnemonic and the registers of the record, and what the
  immediate of the record stands for; `Record.readAs_of_decode` says so of what is decoded.

The main statement, `decode_by_rules`, puts both beside the fault of a record that does not decode.
-/

namespace Rv32i

/-! ## 1. Records and what they are read as -/

namespace Record

/-- **What a record has to be**: the operands of its format and no others, and all of them with
    values that an instruction can have. -/
structure Decodable (r : Record) : Prop where
  format : r.format = r.opcode.format
  operands : ∀ operand, operand ≠ .label → r.has operand = r.format.takes operand
  label : r.label.isSome = true → r.format = .sb ∨ r.format = .uj
  registers : ∀ operand index, r.registerAt operand = some index → index.toNat ≤ 31
  amount : ∀ imm, r.opcode ∈ [Mnemonic.slli, .srli, .srai] → r.imm = some imm →
    0 ≤ imm.toInt ∧ imm.toInt ≤ 31
  even : ∀ imm, r.format = .sb ∨ r.format = .uj → r.imm = some imm → imm.toInt % 2 = 0

/-- What an immediate stands for under a format: the value folded into the field, or for an upper
    immediate the word shifted into place. -/
inductive ImmediateReadAs (raw value : Word) : Format → Prop
  | folded {format : Format} {bits : Nat} (field : format.field? = some (.signed bits))
      (folds : Word.Folds bits raw value) : ImmediateReadAs raw value format
  | upper (placed : (value.toNat : Int) = raw.toInt * 2 ^ 12 % 2 ^ 32) :
    ImmediateReadAs raw value .u

/-- **What an instruction has of a record**: its mnemonic, its registers and what its immediate
    stands for, if it has one. -/
structure ReadAs (r : Record) (i : Instruction) : Prop where
  mnemonic : i.mnemonic = r.opcode
  registers : ∀ operand, r.registerAt operand = (i.registerAt operand).map Reg.toByte
  immediate : Option.Rel (ImmediateReadAs · · r.format) r.imm i.immediate?

/-! ## 2. What decodes -/

section

variable {r : Record}

theorem takes_label_iff {f : Format} : f.takes .label = true ↔ f = .sb ∨ f = .uj := by
  cases f <;> simp [Format.takes]

/-- The offsets of branches and jumps have a field. -/
theorem exists_field_of_jumps {f : Format} (jumps : f = .sb ∨ f = .uj) :
    ∃ bits, f.field? = some (.signed bits) ∧ 0 < bits ∧ bits ≤ 32 := by
  rcases jumps with rfl | rfl
  · exact ⟨13, rfl, by decide⟩
  · exact ⟨21, rfl, by decide⟩

theorem Decodable.not_breaks (d : r.Decodable) {rule : DecodeRule} (mem : rule ∈ DecodeRule.all)
    (fault : DecodeFault) : ¬ r.Breaks rule fault := by
  have format := d.format
  intro breaks
  cases breaks with
  | format mismatch => exact mismatch format
  | @foreign operand present lacks =>
    rw [← format] at lacks
    by_cases e : operand = .label
    · subst e
      have taken := takes_label_iff.mpr (d.label present)
      rw [lacks] at taken
      cases taken
    · have own := d.operands operand e
      rw [present, lacks] at own
      cases own
  | @missing operand takes absent =>
    have notLabel : operand ≠ .label := by
      intro e
      subst e
      exact absurd mem (by decide)
    have own := d.operands operand notLabel
    rw [format, takes, absent] at own
    cases own
  | register _ recorded large =>
    have small := d.registers _ _ recorded
    omega
  | immediate recorded unreadable =>
    cases unreadable with
    | amount shifts outside => exact outside (d.amount _ shifts recorded)
    | odd jumps _ _ odd =>
      have even := d.even _ (format ▸ jumps) recorded
      omega

theorem decodable_of_not_breaks
    (kept : ∀ rule ∈ DecodeRule.all, ∀ fault, ¬ r.Breaks rule fault) : r.Decodable := by
  have format : r.format = r.opcode.format :=
    Decidable.byContradiction fun mismatch => kept .format (by decide) _ (.format mismatch)
  have own : ∀ operand, r.has operand = true → r.opcode.format.takes operand = true := by
    intro operand present
    cases takes : r.opcode.format.takes operand with
    | true => rfl
    | false =>
      have mem : DecodeRule.foreign operand ∈ DecodeRule.all := by cases operand <;> decide
      exact absurd (.foreign present takes) (kept _ mem _)
  have asked {operand : Operand} (notLabel : operand ≠ .label) :
      ∀ fault, ¬ r.Breaks (.operand operand) fault := by
    have mem : DecodeRule.operand operand ∈ DecodeRule.all := by
      cases operand with
      | label => exact absurd rfl notLabel
      | _ => decide
    exact kept _ mem
  constructor
  · exact format
  · intro operand notLabel
    rw [format]
    cases present : r.has operand with
    | true => exact (own operand present).symm
    | false =>
      cases takes : r.opcode.format.takes operand with
      | false => rfl
      | true => exact absurd (.missing takes present) (asked notLabel _)
  · intro labelled
    exact takes_label_iff.mp (format ▸ own .label labelled)
  · intro operand index recorded
    have isRegister : operand ∈ [Operand.rd, .rs1, .rs2] := by
      cases operand with
      | imm => cases recorded
      | label => cases recorded
      | _ => decide
    have notLabel : operand ≠ .label := by
      intro e
      subst e
      cases recorded
    have present : r.has operand = true := by rw [r.has_register isRegister, recorded]; rfl
    exact Nat.le_of_not_lt fun large =>
      asked notLabel _ (.register (own operand present) recorded large)
  · intro imm shifts recorded
    exact Decidable.byContradiction fun outside =>
      asked (by decide) _ (.immediate recorded (.amount shifts outside))
  · intro imm jumps recorded
    rw [format] at jumps
    obtain ⟨bits, field, positive, le⟩ := exists_field_of_jumps jumps
    have folds : Word.Folds bits imm _ := Word.folds_signField positive le
    have notOdd : ¬ imm.toInt % 2 = 1 := fun odd =>
      asked (by decide) _ (.immediate recorded (.odd jumps field folds odd))
    omega

/-- **What decodes is what breaks no rule.** -/
theorem exists_decode_eq_ok_iff : (∃ i, r.decode = .ok i) ↔ r.Decodable := by
  constructor
  · intro ⟨i, decodes⟩
    refine decodable_of_not_breaks fun rule mem fault breaks => ?_
    obtain ⟨first, broken⟩ := exists_firstBroken_iff.mpr ⟨rule, mem, fault, breaks⟩
    have fails : r.decode = .error ⟨r.line, first⟩ := decode_eq_error_iff.mpr ⟨rfl, broken⟩
    cases decodes.symm.trans fails
  · intro d
    cases result : r.decode with
    | ok i => exact ⟨i, rfl⟩
    | error error =>
      obtain ⟨-, broken⟩ := decode_eq_error_iff.mp result
      obtain ⟨rule, mem, fault, breaks⟩ := exists_firstBroken_iff.mp ⟨_, broken⟩
      exact absurd breaks (d.not_breaks mem fault)

end

/-! ## 3. What it decodes to -/

section

variable {r : Record} {o : Operation} (operation : r.opcode.operation = o)
  (shape : r.format = r.opcode.format ∧
    ∀ operand, r.has operand = true → r.opcode.format.takes operand = true)

theorem recorded_of_register {operand : Operand} {value : Option Byte} {reg : Reg}
    (reads : r.register operand value = .ok reg) : value = some reg.toByte := by
  cases value with
  | none => cases reads
  | some index =>
    by_cases small : index.toNat < 32
    · have read : r.register operand (some index) = .ok ⟨index.toNat, small⟩ := dif_pos small
      cases read.symm.trans reads
      rw [Reg.toByte, BitVec.ofNat_toNat, BitVec.setWidth_eq]
    · have refused : r.register operand (some index) = .error _ := dif_neg small
      cases refused.symm.trans reads

theorem recorded_of_rawImm {imm : Word} (reads : r.rawImm = .ok imm) : r.imm = some imm := by
  rw [rawImm] at reads
  cases recorded : r.imm with
  | none =>
    rw [recorded] at reads
    cases reads
  | some raw =>
    rw [recorded] at reads
    cases reads
    rfl

include operation shape

theorem format_of_shape : r.format = o.format :=
  shape.1.trans (format_of_operation operation)

theorem absent {operand : Operand} (lacks : o.format.takes operand = false) :
    r.has operand = false :=
  has_eq_false (shape.2 operand) (format_of_operation operation ▸ lacks)

theorem registerAt_absent (operand : Operand) (isRegister : operand ∈ [Operand.rd, .rs1, .rs2])
    (lacks : o.format.takes operand = false) : r.registerAt operand = none :=
  registerAt_eq_none_of_absent isRegister (absent operation shape lacks)

theorem immediate_absent (lacks : o.format.takes .imm = false) :
    Option.Rel (ImmediateReadAs · · r.format) r.imm none := by
  rw [imm_eq_none_of_absent (absent operation shape lacks)]
  exact .none

theorem immediate_signed {bits : Nat} {value : Word}
    (field : o.format.field? = some (.signed bits)) (width : 0 < bits ∧ bits ≤ 32)
    (reads : r.signedImm bits = .ok value) :
    Option.Rel (ImmediateReadAs · · r.format) r.imm (some value) := by
  obtain ⟨raw, read, eq⟩ := bind_eq_ok.mp reads
  cases eq
  rw [recorded_of_rawImm read, format_of_shape operation shape]
  exact .some (.folded field (Word.folds_signField width.1 width.2))

theorem immediate_even {bits : Nat} {value : Word}
    (field : o.format.field? = some (.signed bits)) (width : 0 < bits ∧ bits ≤ 32)
    (reads : r.evenImm bits = .ok value) :
    Option.Rel (ImmediateReadAs · · r.format) r.imm (some value) := by
  obtain ⟨offset, read, eq⟩ := bind_eq_ok.mp reads
  split at eq
  · cases eq
    exact immediate_signed operation shape field width read
  · cases eq

/-- A shift amount is in the range of the field, where it stands for itself. -/
theorem immediate_amount {amount : Fin 32} (field : o.format.field? = some (.signed 12))
    (reads : r.shiftAmount = .ok amount) :
    Option.Rel (ImmediateReadAs · · r.format) r.imm (some (BitVec.ofNat 32 amount)) := by
  obtain ⟨raw, read, eq⟩ := bind_eq_ok.mp reads
  split at eq
  · rename_i small
    cases eq
    have inside := Word.amount_iff.mp small
    have admits : (Field.signed 12).admits raw.toInt = true :=
      Field.admits_iff.mpr ⟨by simp only [Field.signed]; omega, by simp only [Field.signed]; omega⟩
    rw [recorded_of_rawImm read, format_of_shape operation shape, BitVec.ofNat_toNat,
      BitVec.setWidth_eq]
    exact .some (.folded field (Word.folds_self (by decide) (by decide) admits))
  · cases eq

theorem immediate_upper {value : Word} (format : o.format = .u) (reads : r.upperImm = .ok value) :
    Option.Rel (ImmediateReadAs · · r.format) r.imm (some value) := by
  obtain ⟨raw, read, eq⟩ := bind_eq_ok.mp reads
  cases eq
  rw [recorded_of_rawImm read, format_of_shape operation shape, format]
  refine .some (.upper ?_)
  have unsigned := BitVec.toInt_eq_toNat_cond raw
  rw [BitVec.toNat_shiftLeft, Nat.shiftLeft_eq]
  split at unsigned <;> omega

end

/-- An instruction is read off a record if its operands, one by one, are. -/
theorem readAs {r : Record} {i : Instruction} (operation : r.opcode.operation = i.operation)
    (rd : r.registerAt .rd = (i.registerAt .rd).map Reg.toByte)
    (rs1 : r.registerAt .rs1 = (i.registerAt .rs1).map Reg.toByte)
    (rs2 : r.registerAt .rs2 = (i.registerAt .rs2).map Reg.toByte)
    (immediate : Option.Rel (ImmediateReadAs · · r.format) r.imm i.immediate?) : r.ReadAs i := by
  refine ⟨?_, fun operand => ?_, immediate⟩
  · rw [Instruction.mnemonic, ← operation, Mnemonic.mnemonic_operation]
  · cases operand with
    | rd => exact rd
    | rs1 => exact rs1
    | rs2 => exact rs2
    | imm => rfl
    | label => rfl

/-- **What decodes is read off the record**, operand by operand. -/
theorem readAs_of_decode {r : Record} {i : Instruction} (decodes : r.decode = .ok i) :
    r.ReadAs i := by
  obtain ⟨shape, h⟩ := decode_eq_ok_iff.mp decodes
  generalize operation : r.opcode.operation = o at h
  have rd_absent := registerAt_absent operation shape .rd (by decide)
  have rs1_absent := registerAt_absent operation shape .rs1 (by decide)
  have rs2_absent := registerAt_absent operation shape .rs2 (by decide)
  cases o with
  | op op =>
    obtain ⟨rd, rs1, rs2, hrd, hrs1, hrs2, rfl⟩ := read_three_eq_ok.mp h
    exact readAs operation (recorded_of_register hrd) (recorded_of_register hrs1)
      (recorded_of_register hrs2) (immediate_absent operation shape rfl)
  | opImm op =>
    obtain ⟨rd, rs1, imm, hrd, hrs1, himm, rfl⟩ := read_three_eq_ok.mp h
    exact readAs operation (recorded_of_register hrd) (recorded_of_register hrs1) (rs2_absent rfl)
      (immediate_signed operation shape rfl (by decide) himm)
  | shiftImm op =>
    obtain ⟨rd, rs1, amount, hrd, hrs1, himm, rfl⟩ := read_three_eq_ok.mp h
    exact readAs operation (recorded_of_register hrd) (recorded_of_register hrs1) (rs2_absent rfl)
      (immediate_amount operation shape rfl himm)
  | load op =>
    obtain ⟨rd, rs1, imm, hrd, hrs1, himm, rfl⟩ := read_three_eq_ok.mp h
    exact readAs operation (recorded_of_register hrd) (recorded_of_register hrs1) (rs2_absent rfl)
      (immediate_signed operation shape rfl (by decide) himm)
  | store width =>
    obtain ⟨rs1, rs2, imm, hrs1, hrs2, himm, rfl⟩ := read_three_eq_ok.mp h
    exact readAs operation (rd_absent rfl) (recorded_of_register hrs1) (recorded_of_register hrs2)
      (immediate_signed operation shape rfl (by decide) himm)
  | branch cond =>
    obtain ⟨rs1, rs2, imm, hrs1, hrs2, himm, rfl⟩ := read_three_eq_ok.mp h
    exact readAs operation (rd_absent rfl) (recorded_of_register hrs1) (recorded_of_register hrs2)
      (immediate_even operation shape rfl (by decide) himm)
  | jal =>
    obtain ⟨rd, imm, hrd, himm, rfl⟩ := read_two_eq_ok.mp h
    exact readAs operation (recorded_of_register hrd) (rs1_absent rfl) (rs2_absent rfl)
      (immediate_even operation shape rfl (by decide) himm)
  | jalr =>
    obtain ⟨rd, rs1, imm, hrd, hrs1, himm, rfl⟩ := read_three_eq_ok.mp h
    exact readAs operation (recorded_of_register hrd) (recorded_of_register hrs1) (rs2_absent rfl)
      (immediate_signed operation shape rfl (by decide) himm)
  | lui =>
    obtain ⟨rd, imm, hrd, himm, rfl⟩ := read_two_eq_ok.mp h
    exact readAs operation (recorded_of_register hrd) (rs1_absent rfl) (rs2_absent rfl)
      (immediate_upper operation shape rfl himm)
  | auipc =>
    obtain ⟨rd, imm, hrd, himm, rfl⟩ := read_two_eq_ok.mp h
    exact readAs operation (recorded_of_register hrd) (rs1_absent rfl) (rs2_absent rfl)
      (immediate_upper operation shape rfl himm)
  | halt =>
    cases h
    exact readAs operation (rd_absent rfl) (rs1_absent rfl) (rs2_absent rfl)
      (immediate_absent operation shape rfl)

end Record

/-- **Decoding is characterised by its rules.** A record decodes exactly if it has the format of
    its mnemonic, the operands of that format and no others, and values that an instruction can
    have. What it decodes to has its mnemonic, its registers and what its immediate stands for. If
    it does not decode, the error has its line, and the fault is that of the first rule broken. -/
theorem decode_by_rules (r : Record) :
    ((∃ i, r.decode = .ok i) ↔ r.Decodable) ∧
    (∀ i, r.decode = .ok i → r.ReadAs i) ∧
    ∀ error, r.decode = .error error ↔
      error.line = r.line ∧ r.FirstBroken error.fault DecodeRule.all :=
  ⟨Record.exists_decode_eq_ok_iff, fun _ => Record.readAs_of_decode,
    fun _ => Record.decode_eq_error_iff⟩

/-- An offset beyond its field is folded into it; of two rules that a record breaks the first is
    named. -/
theorem decode_by_rules_folded :
    let branch : Record :=
      { opcode := .bne, format := .sb, index := 0, line := 4, source := "bne",
        rs1 := some 1, rs2 := some 2, imm := some 0x3FFE }
    let store : Record :=
      { opcode := .sw, format := .s, index := 1, line := 5, source := "sw",
        rd := some 3, rs1 := some 40 }
    branch.Decodable ∧ branch.ReadAs (.branch .ne 1 2 (-2)) ∧
      ¬ store.Decodable ∧ store.FirstBroken (.unexpectedField .sw .rd) DecodeRule.all := by
  intro branch store
  obtain ⟨accepted, reads, -⟩ := decode_by_rules branch
  obtain ⟨refused, -, fails⟩ := decode_by_rules store
  have decodes : branch.decode = .ok (.branch .ne 1 2 (-2)) := rfl
  have foreign : store.decode = .error ⟨5, .unexpectedField .sw .rd⟩ := rfl
  refine ⟨accepted.mp ⟨_, decodes⟩, reads _ decodes, fun d => ?_, ((fails _).mp foreign).2⟩
  obtain ⟨i, ok⟩ := refused.mpr d
  cases foreign.symm.trans ok

end Rv32i
