import Rv32i.Proofs.Assembly.Forms
import Rv32i.Proofs.Machine.RelativeJump

/-!
# Where label references land

A branch or a jump may name a label. The slots of labels are counted in one pass over the lines
and those of records in another, the offset between the two is recorded in bytes, read back from a
field when the record is decoded, and counted in slots again when the instruction is executed.
The main statement, `label_reference_lands`, follows it all the way.

* `LabelTable.find?_of_assemble`: in a source that assembles every definition is the only one of
  its name, and `labelled_line` finds the line it stands on;
* `Statement.Read.labelled`: what a record with a label holds and decodes to.

`Instruction.execute_of_relative` does the rest.
-/

namespace Rv32i

open Text

/-! ## 1. Labels in their places -/

theorem SourceLine.mem_definitions {line : SourceLine} {d : LabelDef} :
    d ∈ line.definitions ↔
      line.labels[d.column]? = some d.name ∧ d.slot = line.slot ∧ d.line = line.number := by
  rw [definitions, List.mem_mapIdx]
  constructor
  · rintro ⟨column, bound, rfl⟩
    exact ⟨List.getElem?_eq_getElem bound, rfl, rfl⟩
  · rintro ⟨here, slot, number⟩
    obtain ⟨bound, name⟩ := List.getElem?_eq_some_iff.mp here
    refine ⟨d.column, bound, ?_⟩
    rw [name, ← slot, ← number]

/-- **In lines that assemble, a definition is the one its name means.** -/
theorem LabelTable.find?_of_assemble {labels : LabelTable} {line : SourceLine}
    {result : Option Record} (assembled : line.assemble labels = .ok result) {d : LabelDef}
    (defines : d ∈ line.definitions) (listed : d ∈ labels.defs) : labels.find? d.name = some d := by
  have clean := (SourceLine.assemble_eq_ok_iff.mp assembled).1
  have notRedefined : labels.redefined? d = none := by
    rw [SourceLine.labelFault?] at clean
    split at clean
    · cases clean
    · rename_i none
      exact List.findSome?_eq_none_iff.mp none d defines
  rw [redefined?] at notRedefined
  cases found : labels.find? d.name with
  | none =>
    have missed := List.find?_eq_none.mp found d listed
    exact absurd (decide_eq_true rfl) missed
  | some first =>
    rw [found, Option.filter_some] at notRedefined
    split at notRedefined
    · cases notRedefined
    · rename_i same
      rw [decide_eq_true_eq] at same
      rw [Decidable.not_not.mp same]

/-- Lines that assemble together assemble each. -/
theorem SourceLine.assembles_of_mem {labels : LabelTable} {lines : List SourceLine}
    {results : List (Option Record)} (each : lines.map (assemble labels) = results.map .ok)
    {line : SourceLine} (mem : line ∈ lines) : ∃ result, line.assemble labels = .ok result := by
  have listed : line.assemble labels ∈ lines.map (assemble labels) := List.mem_map_of_mem mem
  rw [each] at listed
  obtain ⟨result, -, eq⟩ := List.mem_map.mp listed
  exact ⟨result, eq.symm⟩

section

variable {raws : List (List Char)} {results : List (Option Record)}

/-- A label in front of a line has a definition there, with the line's number. -/
theorem defined_of_mem_labelsOf {pre post : List (List Char)} {raw : List Char} {name : String}
    (h : name ∈ SourceLine.labelsOf raw) :
    ∃ line ∈ SourceLine.place [] 1 0 (pre ++ raw :: post), ∃ d ∈ line.definitions,
      d.name = name ∧ d.line = 1 + pre.length := by
  obtain ⟨column, bound, rfl⟩ := List.getElem_of_mem h
  refine ⟨_, SourceLine.mem_place.mpr ⟨pre, raw, post, rfl, rfl⟩,
    ⟨(SourceLine.labelsOf raw)[column], 0 + pre.countP SourceLine.bearsStatement,
      1 + pre.length, column⟩, ?_, rfl, rfl⟩
  exact SourceLine.mem_definitions.mpr ⟨List.getElem?_eq_getElem bound, rfl, rfl⟩

/-- Another line than the one in the middle stands at another place. -/
theorem split_other {pre post : List (List Char)} (raw : List Char) {other : List Char}
    (h : other ∈ pre ++ post) :
    ∃ before after, pre ++ raw :: post = before ++ other :: after ∧
      before.length ≠ pre.length := by
  rcases List.mem_append.mp h with h | h
  · obtain ⟨before, after, rfl⟩ := List.append_of_mem h
    refine ⟨before, after ++ raw :: post, by rw [List.append_assoc, List.cons_append], ?_⟩
    rw [List.length_append, List.length_cons]
    omega
  · obtain ⟨before, after, rfl⟩ := List.append_of_mem h
    refine ⟨pre ++ raw :: before, after, by rw [List.append_assoc, List.cons_append], ?_⟩
    rw [List.length_append, List.length_cons]
    omega

/-- **A label that is known stands in front of one line**, and means the number of statements
    before that line. -/
theorem labelled_line
    (each : (SourceLine.place [] 1 0 raws).map
      (SourceLine.assemble (.ofLines (SourceLine.place [] 1 0 raws))) = results.map .ok)
    {name : String} {t : Nat}
    (known : (LabelTable.ofLines (SourceLine.place [] 1 0 raws)).slot? name = some t) :
    ∃ pre raw post, raws = pre ++ raw :: post ∧ name ∈ SourceLine.labelsOf raw ∧
      (∀ other ∈ pre ++ post, name ∉ SourceLine.labelsOf other) ∧
      t = pre.countP SourceLine.bearsStatement := by
  obtain ⟨d, found, rfl⟩ := Option.map_eq_some_iff.mp known
  have listed := List.mem_of_find?_eq_some found
  obtain ⟨line, placed, defines⟩ := List.mem_flatMap.mp listed
  obtain ⟨pre, raw, post, split, rfl⟩ := SourceLine.mem_place.mp placed
  obtain ⟨named, slot, number⟩ := SourceLine.mem_definitions.mp defines
  refine ⟨pre, raw, post, split, ?_, fun other elsewhere again => ?_, ?_⟩
  · rw [LabelTable.name_of_find? found] at named
    exact List.mem_of_getElem? named
  · obtain ⟨before, after, eq, ne⟩ := split_other raw elsewhere
    obtain ⟨line, placed, e, redefines, rfl, position⟩ := defined_of_mem_labelsOf again
    rw [← eq, ← split] at placed
    obtain ⟨result, assembled⟩ := SourceLine.assembles_of_mem each placed
    have meant := LabelTable.find?_of_assemble assembled redefines
      (List.mem_flatMap.mpr ⟨line, placed, redefines⟩)
    rw [found] at meant
    cases meant
    rw [number] at position
    exact ne (Nat.add_left_cancel position).symm
  · rw [slot]
    exact Nat.zero_add _

end

/-! ## 2. From the name to the record -/

namespace Operands

/-- A target that is recorded with a label is the byte offset to the slot of that label. -/
theorem target_of_label {labels : LabelTable} {slot : Nat} {field : Field} {part : List Char}
    {imm : Word} {name : String} (h : target labels slot field part = .ok (imm, some name)) :
    ∃ t : Nat, labels.slot? name = some t ∧ field.admits (((t : Int) - slot) * 4) = true ∧
      imm = BitVec.ofInt 32 (((t : Int) - slot) * 4) := by
  unfold target at h
  split at h
  · obtain ⟨w, -, h⟩ := bind_eq_ok.mp h
    cases h
  · dsimp only at h
    split at h
    · split at h
      · rename_i t known
        obtain ⟨w, fits, h⟩ := bind_eq_ok.mp h
        cases h
        unfold fit at fits
        split at fits
        · rename_i admits
          cases fits
          exact ⟨t, known, admits, rfl⟩
        · cases fits
      · cases h
    · cases h

end Operands

theorem Mnemonic.eq_of_format_sb {m : Mnemonic} (h : m.format = .sb) :
    ∃ cond, m = (Operation.branch cond).mnemonic := by
  cases m
  case beq => exact ⟨.eq, rfl⟩
  case bne => exact ⟨.ne, rfl⟩
  case blt => exact ⟨.lt, rfl⟩
  case bge => exact ⟨.ge, rfl⟩
  case bltu => exact ⟨.ltu, rfl⟩
  case bgeu => exact ⟨.geu, rfl⟩
  all_goals cases h

theorem Mnemonic.eq_of_format_uj {m : Mnemonic} (h : m.format = .uj) : m = .jal := by
  cases m
  case jal => rfl
  all_goals cases h

namespace Statement

open Operands

/-- What is known of a record at a slot that was written with a label. -/
structure Labelled (labels : LabelTable) (name : String) (slot : Nat) (r : Record) (t : Nat)
    (offset : Word) (i : Instruction) : Prop where
  index : r.index = slot
  known : labels.slot? name = some t
  imm : r.imm = some offset
  counts : offset.toInt = ((t : Int) - slot) * 4
  decode : r.decode = .ok i
  relative : i.Relative offset

section

variable {labels : LabelTable} {m : Mnemonic} {slot line : Nat} {source name : String}
  {part : List Char} {offset : Word}

theorem labelled_branch (format : m.format = .sb)
    (h : target labels slot (.signed 13) part = .ok (offset, some name)) (rs1 rs2 : Reg) :
    ∃ t i, Labelled labels name slot
      { Record.bare m slot line source with
        rs1 := some rs1.toByte, rs2 := some rs2.toByte, imm := some offset, label := some name }
      t offset i := by
  obtain ⟨t, known, admits, rfl⟩ := target_of_label h
  obtain ⟨cond, rfl⟩ := Mnemonic.eq_of_format_sb format
  have narrow : (Field.signed 13).Narrow := Field.narrow_signed (by decide)
  have counts := narrow.toInt_ofInt admits
  refine ⟨t, .branch cond rs1 rs2 _, rfl, known, rfl, counts, ?_, .branch cond rs1 rs2⟩
  refine Record.decode_of_operands rfl rfl rfl ?_
  exact read_three_eq_ok.mpr ⟨_, _, _, Record.rs1Reg_of_recorded rfl,
    Record.rs2Reg_of_recorded rfl, Record.evenImm_of_admits rfl (by decide) (by decide)
      (counts.symm ▸ admits) (Word.even_iff.mpr (by omega)), rfl⟩

theorem labelled_jump (format : m.format = .uj)
    (h : target labels slot (.signed 21) part = .ok (offset, some name)) (rd : Reg) :
    ∃ t i, Labelled labels name slot
      { Record.bare m slot line source with
        rd := some rd.toByte, imm := some offset, label := some name } t offset i := by
  obtain ⟨t, known, admits, rfl⟩ := target_of_label h
  obtain rfl := Mnemonic.eq_of_format_uj format
  have narrow : (Field.signed 21).Narrow := Field.narrow_signed (by decide)
  have counts := narrow.toInt_ofInt admits
  refine ⟨t, .jal rd _, rfl, known, rfl, counts, ?_, .jal rd⟩
  refine Record.decode_of_operands rfl rfl rfl ?_
  exact read_two_eq_ok.mpr ⟨_, _, Record.rdReg_of_recorded rfl,
    Record.evenImm_of_admits rfl (by decide) (by decide) (counts.symm ▸ admits)
      (Word.even_iff.mpr (by omega)), rfl⟩

/-- **A record with a label is a branch or a jump to the slot of that label.** -/
theorem Read.labelled {r : Record} (read : Read labels (.bare m slot line source) r)
    (labelled : r.label = some name) : ∃ t offset i, Labelled labels name slot r t offset i := by
  -- only branches and jumps read a label
  cases read with
  | branch rs1 rs2 format target =>
    cases labelled
    obtain ⟨t, i, labelled⟩ := labelled_branch format target rs1 rs2
    exact ⟨t, _, i, labelled⟩
  | jump rd format target =>
    cases labelled
    obtain ⟨t, i, labelled⟩ := labelled_jump format target rd
    exact ⟨t, _, i, labelled⟩
  | _ => cases labelled

end

end Statement

/-! ## 3. From the record to the label -/

/-- **A label reference lands on its label.** In a source that assembles, the name of a label that
    a record refers to stands in front of one line only and means the number `t` of statements
    before that line. The record is a branch or a jump, the offset in it leads from its slot to `t`,
    and wherever it transfers control the program counter is `t` afterwards. -/
theorem label_reference_lands {source : String} {program : Program}
    (parsed : Program.parse source = .ok program) (small : program.size < 2 ^ 32) {i : Nat}
    {r : Record} (fetched : program.records[i]? = some r) {name : String}
    (labelled : r.label = some name) :
    ∃ pre raw post t,
      lines source.toList = pre ++ raw :: post ∧ name ∈ SourceLine.labelsOf raw ∧
      (∀ other ∈ pre ++ post, name ∉ SourceLine.labelsOf other) ∧
      t = pre.countP SourceLine.bearsStatement ∧ program.labels.slot? name = some t ∧
      t ≤ program.size ∧ r.index = i ∧
      ∃ offset ins, r.imm = some offset ∧ offset.toInt = 4 * ((t : Int) - i) ∧
        r.decode = .ok ins ∧ ins.Relative offset ∧
        ∀ h : Hart, h.pc.toNat = i → ins.transfers h = true →
          ∃ h', ins.execute h = .ok h' ∧ h'.pc.toNat = t := by
  obtain ⟨results, each, rfl⟩ := Program.assemble_eq_ok_iff.mp parsed
  rw [List.getElem?_toArray] at fetched
  obtain ⟨before, line, after, -, -, assembled⟩ := SourceLine.record_of_place each fetched
  rw [Nat.zero_add] at assembled
  obtain ⟨m, read⟩ := Statement.read_of_line assembled
  obtain ⟨t, offset, ins, l⟩ := read.labelled labelled
  obtain ⟨pre, raw, post, split, named, single, rfl⟩ := labelled_line each l.known
  have size : pre.countP SourceLine.bearsStatement ≤ (results.filterMap id).length := by
    rw [SourceLine.length_of_place each, split, List.countP_append]
    exact Nat.le_add_right _ _
  have counts : offset.toInt = 4 * ((pre.countP SourceLine.bearsStatement : Int) - i) :=
    l.counts.trans (Int.mul_comm _ _)
  refine ⟨pre, raw, post, _, split, named, single, rfl, l.known, size, l.index, offset, ins, l.imm,
    counts, l.decode, l.relative, fun h here transfers => ?_⟩
  have whole := @Hart.four_mul_countedSlot h offset (by omega)
  refine Instruction.execute_of_relative l.relative (Nat.lt_of_le_of_lt size small) ?_ transfers
  omega

/-- A jump past the last statement, to a label at the end of the source. -/
theorem label_reference_lands_end :
    let r : Record :=
      { opcode := .jal, format := .uj, index := 0, line := 1, source := "jal x0, end",
        rd := some 0, imm := some 4, label := some "end" }
    Program.parse "  on: jal x0, end # leave\n\nend:" =
        .ok ⟨#[r], ⟨[⟨"on", 0, 1, 0⟩, ⟨"end", 1, 3, 0⟩]⟩⟩ ∧
      r.decode = .ok (.jal 0 4) ∧
      ∃ h', (Instruction.jal 0 4).execute (.zero 4) = .ok h' ∧ h'.pc.toNat = 1 := by
  intro r
  have parsed : Program.parse "  on: jal x0, end # leave\n\nend:" =
      .ok ⟨#[r], ⟨[⟨"on", 0, 1, 0⟩, ⟨"end", 1, 3, 0⟩]⟩⟩ := eq_ok_of_toOption (by decide +kernel)
  obtain ⟨_, _, _, t, -, -, -, -, known, -, -, offset, ins, -, -, decoded, -, lands⟩ :=
    label_reference_lands parsed (by decide) (i := 0) (r := r) rfl rfl
  cases known
  cases decoded
  exact ⟨parsed, rfl, lands (.zero 4) rfl rfl⟩

end Rv32i
