import Mathlib.Data.List.Nodup
import Rv32i.Proofs.Assembly.FirstFault

/-!
# Lines and statements in other places

The numbers of lines and the slots of statements come from where a line stands in its source. Here
is said what becomes of a program if its lines stand elsewhere: the numbers of lines are changed by
a function, and slots are moved on by a distance.

* `Statement.exists_said`: of a statement only its target depends on where it stands;
* `Statement.assemble_relocate`: with all labels moved on together a statement assembles as before,
  `Statement.assemble_of_embeds`: if only those that it knew have been moved on, it still does if it
  did before;
* `Program.ofLines_relocate`: lines that are moved on together assemble as before, and fail as
  before, and `Program.ofLines_bare`: a line with nothing on it may be left out;
* `Program.ofLines_eq_ok_iff`: a source assembles exactly if no label is defined twice, nothing else
  stands before a colon, and every statement assembles.
-/

namespace Rv32i

open Text SourceLine

/-! ## 1. Faults that name no line -/

/-- The fault with the line in it renumbered: that of a first definition. -/
def ParseFault.renumber (newLine : Nat → Nat) : ParseFault → ParseFault
  | duplicateLabel label first => duplicateLabel label (newLine first)
  | fault => fault

/-- Whatever is wrong has no line in it. -/
def Lineless {α : Type} (x : Except ParseFault α) : Prop :=
  ∀ fault, x = .error fault → ∀ newLine, fault.renumber newLine = fault

section

variable {α β : Type}

theorem lineless_ok (a : α) : Lineless (.ok a) :=
  nofun

theorem lineless_error {fault : ParseFault} (h : ∀ newLine, fault.renumber newLine = fault) :
    Lineless (.error fault : Except ParseFault α) := by
  intro _ same
  cases same
  exact h

theorem Lineless.bind {x : Except ParseFault α} {k : α → Except ParseFault β} (hx : Lineless x)
    (hk : ∀ a, Lineless (k a)) : Lineless (x >>= k) := by
  cases x with
  | error fault => exact lineless_error (hx fault rfl)
  | ok a => exact hk a

end

namespace Operands

theorem lineless_noParts (opcode : Mnemonic) (text : List Char) :
    Lineless (noParts opcode text) := by
  unfold noParts
  split
  · exact lineless_ok _
  · exact lineless_error fun _ => rfl

theorem lineless_twoParts (opcode : Mnemonic) (text : List Char) :
    Lineless (twoParts opcode text) := by
  unfold twoParts
  split
  · exact lineless_ok _
  · exact lineless_error fun _ => rfl

theorem lineless_threeParts (opcode : Mnemonic) (text : List Char) :
    Lineless (threeParts opcode text) := by
  unfold threeParts
  split
  · exact lineless_ok _
  · exact lineless_error fun _ => rfl

theorem lineless_addressParts (opcode : Mnemonic) (text : List Char) :
    Lineless (addressParts opcode text) := by
  unfold addressParts
  split
  · split
    · exact lineless_error fun _ => rfl
    · split
      · exact lineless_error fun _ => rfl
      · exact lineless_ok _
  · exact (lineless_threeParts opcode text).bind fun _ => lineless_ok _

theorem lineless_register (part : List Char) : Lineless (register part) := by
  unfold register
  split
  · exact lineless_ok _
  · exact lineless_error fun _ => rfl

theorem lineless_fit (field : Field) (value : Int) : Lineless (fit field value) := by
  unfold fit
  split
  · exact lineless_ok _
  · exact lineless_error fun _ => rfl

theorem lineless_immediate (field : Field) (part : List Char) :
    Lineless (immediate field part) := by
  unfold immediate
  split
  · exact lineless_fit _ _
  · exact lineless_error fun _ => rfl

theorem lineless_offset (part : Option (List Char)) : Lineless (offset part) := by
  cases part with
  | none => exact lineless_ok _
  | some part => exact lineless_immediate _ _

theorem lineless_target (labels : LabelTable) (slot : Nat) (field : Field) (part : List Char) :
    Lineless (target labels slot field part) := by
  unfold target
  split
  · exact (lineless_fit _ _).bind fun _ => lineless_ok _
  · dsimp only
    split
    · split
      · exact (lineless_fit _ _).bind fun _ => lineless_ok _
      · exact lineless_error fun _ => rfl
    · exact lineless_error fun _ => rfl

end Operands

/-! ## 2. What a statement says -/

namespace Statement

open Operands

/-- **What an operand text says**, wherever it stands: what is wrong with it, its operands, or its
    registers and a target that is still to be found. -/
inductive Said
  | fault (fault : ParseFault) (lineless : ∀ newLine, fault.renumber newLine = fault)
  | operands (rd rs1 rs2 : Option Byte) (imm : Option Word)
  | target (rd rs1 rs2 : Option Byte) (field : Field) (part : List Char)

/-- The record that comes of it. -/
def Said.record (labels : LabelTable) (base : Record) : Said → Except ParseFault Record
  | fault cause _ => .error cause
  | operands rd rs1 rs2 imm => .ok { base with rd, rs1, rs2, imm }
  | target rd rs1 rs2 field part => do
    let (imm, label) ← Operands.target labels base.index field part
    return { base with rd, rs1, rs2, imm := some imm, label }

/-- What is read into records with empty operands says the same at every place. -/
def Uniform (base : Nat → Nat → String → Record)
    (read : LabelTable → Nat → Nat → String → Except ParseFault Record) : Prop :=
  ∃ said : Said, ∀ labels slot line source,
    read labels slot line source = said.record labels (base slot line source)

/-- A part is read the same everywhere, and if it is in order what follows decides. -/
theorem Uniform.bind {base : Nat → Nat → String → Record} {α : Type} {part : Except ParseFault α}
    (lineless : Lineless part)
    {read : α → LabelTable → Nat → Nat → String → Except ParseFault Record}
    (rest : ∀ a, Uniform base (read a)) : Uniform base fun labels slot line source =>
      part >>= fun a => read a labels slot line source := by
  cases part with
  | error fault => exact ⟨.fault fault (lineless fault rfl), fun _ _ _ _ => rfl⟩
  | ok a => exact rest a

/-- **The operands of every format are read the same everywhere**, up to a target. -/
theorem uniform_readOperands (opcode : Mnemonic) (text : List Char) :
    Uniform (.bare opcode) fun labels slot line source =>
      readOperands labels (.bare opcode slot line source) text := by
  unfold Record.bare readOperands
  cases opcode.format with
  | r =>
    dsimp only
    exact .bind (lineless_threeParts _ _) fun (_, _, _) => .bind (lineless_register _) fun rd =>
      .bind (lineless_register _) fun rs1 => .bind (lineless_register _) fun rs2 =>
        ⟨.operands rd rs1 rs2 none, fun _ _ _ _ => rfl⟩
  | i =>
    dsimp only
    exact .bind (lineless_threeParts _ _) fun (_, _, _) => .bind (lineless_register _) fun rd =>
      .bind (lineless_register _) fun rs1 => .bind (lineless_immediate _ _) fun imm =>
        ⟨.operands rd rs1 none imm, fun _ _ _ _ => rfl⟩
  | il | jalr =>
    dsimp only
    exact .bind (lineless_addressParts _ _) fun _ => .bind (lineless_register _) fun rd =>
      .bind (lineless_register _) fun rs1 => .bind (lineless_offset _) fun imm =>
        ⟨.operands rd rs1 none imm, fun _ _ _ _ => rfl⟩
  | s =>
    dsimp only
    exact .bind (lineless_addressParts _ _) fun _ => .bind (lineless_register _) fun rs2 =>
      .bind (lineless_register _) fun rs1 => .bind (lineless_offset _) fun imm =>
        ⟨.operands none rs1 rs2 imm, fun _ _ _ _ => rfl⟩
  | sb =>
    dsimp only
    exact .bind (lineless_threeParts _ _) fun (_, _, part) => .bind (lineless_register _) fun rs1 =>
      .bind (lineless_register _) fun rs2 =>
        ⟨.target none rs1 rs2 (.signed 13) part, fun _ _ _ _ => rfl⟩
  | uj =>
    dsimp only
    exact .bind (lineless_twoParts _ _) fun (_, part) => .bind (lineless_register _) fun rd =>
      ⟨.target rd none none (.signed 21) part, fun _ _ _ _ => rfl⟩
  | u =>
    dsimp only
    exact .bind (lineless_twoParts _ _) fun (_, _) => .bind (lineless_register _) fun rd =>
      .bind (lineless_immediate _ _) fun imm => ⟨.operands rd none none imm, fun _ _ _ _ => rfl⟩
  | hlt =>
    dsimp only
    exact .bind (lineless_noParts _ _) fun _ =>
      ⟨.operands none none none none, fun _ _ _ _ => rfl⟩

/-- **A statement says the same wherever it stands.** -/
theorem exists_said (text : List Char) : ∃ opcode, ∃ said : Said, ∀ labels slot line,
    assemble labels slot line text =
      said.record labels (.bare opcode slot line (String.ofList text)) := by
  unfold assemble
  rcases split text with ⟨head, operands⟩
  dsimp only
  cases Mnemonic.ofText? head with
  | none => exact ⟨.hlt, .fault (.unknownMnemonic _) fun _ => rfl, fun _ _ _ => rfl⟩
  | some opcode =>
    obtain ⟨said, reads⟩ := uniform_readOperands opcode operands
    exact ⟨opcode, said, fun labels slot line => reads labels slot line _⟩

/-- No other line is to blame for a statement. -/
theorem lineless_assemble (labels : LabelTable) (slot line : Nat) (text : List Char) :
    Lineless (assemble labels slot line text) := by
  obtain ⟨opcode, said, reads⟩ := exists_said text
  rw [reads]
  cases said with
  | fault cause lineless => exact lineless_error lineless
  | operands => exact lineless_ok _
  | target => exact (lineless_target _ _ _ _).bind fun _ => lineless_ok _

end Statement

/-! ## 3. Places -/

section

variable (newLine : Nat → Nat) (distance : Nat)

/-- The record with its line renumbered and its slot moved on. -/
def Record.relocate (r : Record) : Record :=
  { r with index := r.index + distance, line := newLine r.line }

def LabelDef.relocate (d : LabelDef) : LabelDef :=
  { d with slot := d.slot + distance, line := newLine d.line }

def LabelTable.relocate (labels : LabelTable) : LabelTable :=
  ⟨labels.defs.map (LabelDef.relocate newLine distance)⟩

/-- The program with all its lines renumbered and all its slots moved on. -/
def Program.relocate (program : Program) : Program :=
  ⟨program.records.map (Record.relocate newLine distance),
    program.labels.relocate newLine distance⟩

/-- The error with its lines renumbered. -/
def ParseError.renumber (e : ParseError) : ParseError :=
  ⟨newLine e.line, e.fault.renumber newLine⟩

def SourceLine.relocate (line : SourceLine) : SourceLine :=
  { line with number := newLine line.number, slot := line.slot + distance }

end

theorem Record.relocate_id (r : Record) : r.relocate id 0 = r := rfl

/-- All labels that a table knows are known to another, further on. -/
def LabelTable.Embeds (labels : LabelTable) (distance : Nat) (other : LabelTable) : Prop :=
  ∀ name slot, labels.slot? name = some slot → other.slot? name = some (slot + distance)

section

variable {labels other : LabelTable} {distance : Nat}

namespace Operands

/-- **A target is relative**: it is the same from a slot that is as much further on as its label. -/
theorem target_relocate {part : List Char}
    (moved : other.slot? (String.ofList part) =
      (labels.slot? (String.ofList part)).map (· + distance)) (slot : Nat) (field : Field) :
    target other (slot + distance) field part = target labels slot field part := by
  unfold target
  cases literal? part with
  | some value => rfl
  | none =>
    dsimp only
    rw [moved]
    cases labels.slot? (String.ofList part) with
    | none => rfl
    | some there =>
      have offset : (((there + distance : Nat) : Int) - (slot + distance : Nat)) =
          there - slot := by
        omega
      simp only [Option.map_some, offset]

theorem target_of_embeds (embeds : labels.Embeds distance other) {slot : Nat} {field : Field}
    {part : List Char} {found : Word × Option String}
    (h : target labels slot field part = .ok found) :
    target other (slot + distance) field part = .ok found := by
  cases known : labels.slot? (String.ofList part) with
  | some there =>
    rw [target_relocate _ slot field, h]
    rw [known, embeds _ _ known]
    rfl
  | none =>
    -- an unknown name is no target, so the part is a literal
    unfold target at h ⊢
    split at h
    · exact h
    · dsimp only at h
      rw [known] at h
      split at h
      · cases h
      · cases h

end Operands

namespace Statement

variable (newLine : Nat → Nat)

theorem Said.record_relocate {said : Said}
    (moved : ∀ name, other.slot? name = (labels.slot? name).map (· + distance))
    (base : Record) : said.record other (base.relocate newLine distance) =
      (said.record labels base).map (Record.relocate newLine distance) := by
  cases said with
  | fault cause => rfl
  | operands rd rs1 rs2 imm => rfl
  | target rd rs1 rs2 field part =>
    have same := Operands.target_relocate (moved (String.ofList part)) base.index field
    show (Operands.target other (base.index + distance) field part >>= _) = _
    rw [same, record]
    cases Operands.target labels base.index field part <;> rfl

theorem Said.record_of_embeds (embeds : labels.Embeds distance other) {said : Said}
    {base r : Record} (h : said.record labels base = .ok r) :
    said.record other (base.relocate newLine distance) = .ok (r.relocate newLine distance) := by
  cases said with
  | fault cause => cases h
  | operands rd rs1 rs2 imm =>
    cases h
    rfl
  | target rd rs1 rs2 field part =>
    obtain ⟨found, target, h⟩ := bind_eq_ok.mp h
    cases h
    exact bind_eq_ok.mpr ⟨found, Operands.target_of_embeds embeds target, rfl⟩

/-- **A statement whose labels have been moved on with it** assembles as before, or fails. -/
theorem assemble_relocate
    (moved : ∀ name, other.slot? name = (labels.slot? name).map (· + distance))
    (slot line : Nat) (text : List Char) :
    assemble other (slot + distance) (newLine line) text =
      (assemble labels slot line text).map (Record.relocate newLine distance) := by
  obtain ⟨opcode, said, reads⟩ := exists_said text
  rw [reads, reads, ← said.record_relocate newLine moved]
  rfl

/-- **A statement that assembles** needs no other labels than it knows. -/
theorem assemble_of_embeds (embeds : labels.Embeds distance other) {slot line : Nat}
    {text : List Char} {r : Record} (h : assemble labels slot line text = .ok r) :
    assemble other (slot + distance) (newLine line) text =
      .ok (r.relocate newLine distance) := by
  obtain ⟨opcode, said, reads⟩ := exists_said text
  rw [reads] at h ⊢
  exact said.record_of_embeds newLine embeds h

end Statement

end

/-! ## 4. Lines moved on together -/

section

variable {newLine : Nat → Nat} {distance : Nat}

namespace LabelTable

theorem find?_relocate (newLine : Nat → Nat) (distance : Nat) (labels : LabelTable)
    (name : String) :
    (labels.relocate newLine distance).find? name =
      (labels.find? name).map (LabelDef.relocate newLine distance) :=
  List.find?_map

theorem slot?_relocate (newLine : Nat → Nat) (distance : Nat) (labels : LabelTable)
    (name : String) :
    (labels.relocate newLine distance).slot? name = (labels.slot? name).map (· + distance) := by
  rw [slot?, slot?, find?_relocate, Option.map_map, Option.map_map]
  rfl

theorem relocate_injective (injective : ∀ m n, newLine m = newLine n → m = n) {d e : LabelDef}
    (same : d.relocate newLine distance = e.relocate newLine distance) : d = e := by
  obtain ⟨name, slot, line, column⟩ : d.name = e.name ∧ d.slot + distance = e.slot + distance ∧
    newLine d.line = newLine e.line ∧ d.column = e.column := LabelDef.mk.inj same
  cases d
  cases e
  exact (LabelDef.mk.injEq ..).mpr ⟨name, Nat.add_right_cancel slot, injective _ _ line, column⟩

/-- A definition that is moved on with all others repeats the same one. -/
theorem redefined?_relocate (injective : ∀ m n, newLine m = newLine n → m = n)
    (labels : LabelTable) (d : LabelDef) :
    (labels.relocate newLine distance).redefined? (d.relocate newLine distance) =
      (labels.redefined? d).map (LabelDef.relocate newLine distance) := by
  have name : (d.relocate newLine distance).name = d.name := rfl
  rw [redefined?, redefined?, name, find?_relocate, Option.filter_map]
  congr 2
  funext e
  exact decide_eq_decide.mpr (not_congr ⟨relocate_injective injective, fun same => same ▸ rfl⟩)

end LabelTable

namespace SourceLine

theorem definitions_relocate (line : SourceLine) :
    (line.relocate newLine distance).definitions =
      line.definitions.map (LabelDef.relocate newLine distance) := by
  refine List.ext_getElem? fun column => ?_
  rw [definitions, definitions, List.getElem?_map, List.getElem?_mapIdx, List.getElem?_mapIdx,
    Option.map_map]
  rfl

theorem ofLines_relocate (lines : List SourceLine) :
    LabelTable.ofLines (lines.map (relocate newLine distance)) =
      (LabelTable.ofLines lines).relocate newLine distance := by
  unfold LabelTable.ofLines LabelTable.relocate
  rw [List.flatMap_map, List.map_flatMap]
  simp only [definitions_relocate]

/-- The labels of a line that is moved on with all others have the same fault. -/
theorem labelFault?_relocate (injective : ∀ m n, newLine m = newLine n → m = n)
    (labels : LabelTable) (line : SourceLine) :
    (line.relocate newLine distance).labelFault? (labels.relocate newLine distance) =
      (line.labelFault? labels).map (ParseFault.renumber newLine) := by
  have repeated : (line.relocate newLine distance).definitions.findSome?
        (labels.relocate newLine distance).redefined? =
      (line.definitions.findSome? labels.redefined?).map (LabelDef.relocate newLine distance) := by
    rw [definitions_relocate, List.findSome?_map, List.map_findSome?]
    congr 1
    funext d
    exact LabelTable.redefined?_relocate injective labels d
  rw [labelFault?, labelFault?, repeated]
  cases line.definitions.findSome? labels.redefined? with
  | some first => rfl
  | none =>
    show line.badLabel.map _ = (line.badLabel.map _).map _
    cases line.badLabel <;> rfl

/-- The statement of a line that is moved on comes to the same, moved on as well. -/
theorem statement?_relocate {labels other : LabelTable}
    (moved : ∀ name, other.slot? name = (labels.slot? name).map (· + distance))
    (line : SourceLine) : (line.relocate newLine distance).statement? other =
      (line.statement? labels).map (Option.map (Record.relocate newLine distance)) := by
  unfold statement?
  show (if line.statement.isEmpty then _ else _) = _
  split
  · rfl
  · have same := Statement.assemble_relocate newLine moved line.slot line.number line.statement
    show (Statement.assemble other (line.slot + distance) (newLine line.number)
      line.statement).map _ = _
    rw [same]
    cases Statement.assemble labels line.slot line.number line.statement <;> rfl

theorem statement?_of_embeds {labels other : LabelTable} (embeds : labels.Embeds distance other)
    {line : SourceLine} {result : Option Record} (h : line.statement? labels = .ok result) :
    (line.relocate newLine distance).statement? other =
      .ok (result.map (Record.relocate newLine distance)) := by
  rcases statement?_eq_ok_iff.mp h with ⟨empty, rfl⟩ | ⟨nonempty, r, rfl, assembled⟩
  · exact statement?_eq_ok_iff.mpr (.inl ⟨empty, rfl⟩)
  · exact statement?_eq_ok_iff.mpr (.inr ⟨nonempty, r.relocate newLine distance, rfl,
      Statement.assemble_of_embeds newLine embeds assembled⟩)

/-- Statements that assemble still do where all labels that they know are further on. -/
theorem map_statement?_of_embeds {labels other : LabelTable} (newLine : Nat → Nat)
    {distance : Nat} (embeds : labels.Embeds distance other) {lines : List SourceLine}
    {results : List (Option Record)}
    (statements : lines.map (statement? labels) = results.map .ok) :
    (lines.map (relocate newLine distance)).map (statement? other) =
      (results.map (Option.map (Record.relocate newLine distance))).map .ok := by
  induction lines generalizing results with
  | nil =>
    cases results with
    | nil => rfl
    | cons result results => cases statements
  | cons line lines ih =>
    cases results with
    | nil => cases statements
    | cons result results =>
      obtain ⟨here, later⟩ := List.cons.inj statements
      simp only [List.map_cons, statement?_of_embeds embeds here, ih later]

theorem lineless_statement? (labels : LabelTable) (line : SourceLine) :
    Lineless (line.statement? labels) := by
  unfold statement?
  split
  · exact lineless_ok _
  · have lineless := Statement.lineless_assemble labels line.slot line.number line.statement
    exact lineless.bind fun _ => lineless_ok _

/-- **A line that is moved on with all others** contributes the same, or has the same error. -/
theorem assemble_relocate (injective : ∀ m n, newLine m = newLine n → m = n)
    (labels : LabelTable) (line : SourceLine) :
    (line.relocate newLine distance).assemble (labels.relocate newLine distance) =
      ((line.assemble labels).map (Option.map (Record.relocate newLine distance))).mapError
        (ParseError.renumber newLine) := by
  unfold assemble
  rw [labelFault?_relocate injective, statement?_relocate (labels.slot?_relocate newLine distance)]
  cases line.labelFault? labels with
  | some fault => rfl
  | none =>
    have lineless := lineless_statement? labels line
    cases result : line.statement? labels with
    | ok found => rfl
    | error fault =>
      have same := lineless fault result newLine
      show Except.error (ParseError.mk (newLine line.number) fault) =
        .error ⟨newLine line.number, fault.renumber newLine⟩
      rw [same]

end SourceLine

/-! ## 5. Programs of lines -/

namespace SourceLine

/-- The records that lines contribute. -/
def records (labels : LabelTable) (lines : List SourceLine) : Except ParseError (List Record) := do
  let results ← lines.mapM (assemble labels)
  return results.filterMap id

theorem records_cons (labels : LabelTable) (line : SourceLine) (lines : List SourceLine) :
    records labels (line :: lines) = (do
      let result ← line.assemble labels
      let later ← records labels lines
      return result.toList ++ later) := by
  rw [records, records, List.mapM_cons]
  cases line.assemble labels with
  | error error => rfl
  | ok result =>
    cases lines.mapM (assemble labels) with
    | error error => rfl
    | ok results => cases result <;> rfl

/-- **Lines that are moved on together** contribute the same, or have the same first error. -/
theorem records_relocate (injective : ∀ m n, newLine m = newLine n → m = n)
    (labels : LabelTable) (lines : List SourceLine) :
    records (labels.relocate newLine distance) (lines.map (relocate newLine distance)) =
      ((records labels lines).map (List.map (Record.relocate newLine distance))).mapError
        (ParseError.renumber newLine) := by
  induction lines with
  | nil => rfl
  | cons line lines ih =>
    rw [List.map_cons, records_cons, records_cons, ih, assemble_relocate injective]
    cases line.assemble labels with
    | error error => rfl
    | ok result =>
      cases records labels lines with
      | error error => rfl
      | ok later => cases result <;> rfl

/-- The records of results that are moved on. -/
theorem filterMap_relocate (newLine : Nat → Nat) (distance : Nat)
    (results : List (Option Record)) :
    (results.map (Option.map (Record.relocate newLine distance))).filterMap id =
      (results.filterMap id).map (Record.relocate newLine distance) := by
  rw [List.filterMap_map, List.map_filterMap]
  rfl

theorem map_relocate_id (lines : List SourceLine) : lines.map (relocate id 0) = lines :=
  List.map_id lines

theorem map_record_relocate_id (results : List (Option Record)) :
    results.map (Option.map (Record.relocate id 0)) = results := by
  have same : Record.relocate id 0 = id := funext Record.relocate_id
  rw [same, Option.map_id, List.map_id]

/-- A line with nothing on it but a comment. -/
structure Bare (line : SourceLine) : Prop where
  labels : line.labels = []
  badLabel : line.badLabel = none
  statement : line.statement = []

theorem bare_of_code {raw : List Char} (empty : code raw = []) (number slot : Nat) :
    (ofText number slot raw).Bare := by
  have peeled : peelLabels (code raw) = ⟨[], none, []⟩ := by
    rw [empty]
    exact peelLabels_of_plain List.not_mem_nil
  exact ⟨congrArg Peeled.labels peeled, congrArg Peeled.badLabel peeled,
    congrArg Peeled.statement peeled⟩

theorem Bare.definitions {line : SourceLine} (bare : line.Bare) : line.definitions = [] := by
  rw [SourceLine.definitions, bare.labels]
  rfl

theorem Bare.assemble {line : SourceLine} (bare : line.Bare) (labels : LabelTable) :
    line.assemble labels = .ok none := by
  refine assemble_eq_ok_iff.mpr ⟨?_, statement?_eq_ok_iff.mpr (.inl ⟨?_, rfl⟩)⟩
  · rw [labelFault?, bare.definitions, bare.badLabel]
    rfl
  · rw [bare.statement]
    rfl

/-- Such a line contributes nothing. -/
theorem records_bare (labels : LabelTable) {line : SourceLine} (bare : line.Bare)
    (before after : List SourceLine) :
    records labels (before ++ line :: after) = records labels (before ++ after) := by
  induction before with
  | nil =>
    rw [List.nil_append, List.nil_append, records_cons, bare.assemble]
    cases records labels after <;> rfl
  | cons first before ih =>
    rw [List.cons_append, List.cons_append, records_cons, records_cons, ih]

end SourceLine

namespace Program

/-- The program of lines in their places. -/
def ofLines (lines : List SourceLine) : Except ParseError Program := do
  let records ← SourceLine.records (.ofLines lines) lines
  return ⟨records.toArray, .ofLines lines⟩

theorem assemble_eq_ofLines (source : List Char) :
    assemble source = ofLines (place [] 1 0 (lines source)) := by
  unfold assemble ofLines SourceLine.records SourceLine.all
  dsimp only
  cases (place [] 1 0 (lines source)).mapM
    (SourceLine.assemble (.ofLines (place [] 1 0 (lines source)))) <;> rfl

/-- **The program of lines that are moved on together** is moved on with them, and so is an
    error. -/
theorem ofLines_relocate (injective : ∀ m n, newLine m = newLine n → m = n)
    (lines : List SourceLine) :
    ofLines (lines.map (SourceLine.relocate newLine distance)) =
      ((ofLines lines).map (relocate newLine distance)).mapError
        (ParseError.renumber newLine) := by
  rw [ofLines, ofLines, SourceLine.ofLines_relocate, records_relocate injective]
  cases SourceLine.records (.ofLines lines) lines with
  | error error => rfl
  | ok records =>
    have moved : (records.map (Record.relocate newLine distance)).toArray =
        records.toArray.map (Record.relocate newLine distance) := List.map_toArray.symm
    show Except.ok (Program.mk _ _) = _
    rw [moved]
    rfl

/-- **A line with nothing on it** may be left out. -/
theorem ofLines_bare {line : SourceLine} (bare : line.Bare) (before after : List SourceLine) :
    ofLines (before ++ line :: after) = ofLines (before ++ after) := by
  have table : LabelTable.ofLines (before ++ line :: after) = .ofLines (before ++ after) := by
    unfold LabelTable.ofLines
    rw [List.flatMap_append, List.flatMap_append, List.flatMap_cons, bare.definitions,
      List.nil_append]
  rw [ofLines, ofLines, table, records_bare _ bare]

end Program

/-! ## 6. Sources that assemble -/

/-- **Definitions are all first of their name** exactly if their names are all different. -/
theorem LabelTable.nodup_names_iff {labels : LabelTable} (nodup : labels.defs.Nodup) :
    (labels.defs.map LabelDef.name).Nodup ↔ ∀ d ∈ labels.defs, labels.redefined? d = none := by
  rw [List.nodup_map_iff_inj_on nodup]
  constructor
  · intro different d mem
    rw [redefined?, Option.filter_eq_none_iff]
    intro e found
    have same := different e (List.mem_of_find?_eq_some found) d mem (name_of_find? found)
    simp [same]
  · intro first d mem e mem' same
    have isFirst {d : LabelDef} (mem : d ∈ labels.defs) : labels.find? d.name = some d := by
      have repeats := first d mem
      rw [redefined?, Option.filter_eq_none_iff] at repeats
      cases found : labels.find? d.name with
      | none => exact absurd (decide_eq_true rfl) (List.find?_eq_none.mp found d mem)
      | some e =>
        have kept := repeats e found
        rw [decide_eq_true_eq, Decidable.not_not] at kept
        rw [kept]
    have one := isFirst mem
    rw [same, isFirst mem'] at one
    exact (Option.some.inj one).symm

namespace SourceLine

theorem labelFault?_eq_none_iff {labels : LabelTable} {line : SourceLine} :
    line.labelFault? labels = none ↔
      (∀ d ∈ line.definitions, labels.redefined? d = none) ∧ line.badLabel = none := by
  rw [labelFault?, ← List.findSome?_eq_none_iff]
  cases line.definitions.findSome? labels.redefined? with
  | some first => simp
  | none =>
    exact ⟨fun clean => ⟨rfl, Option.map_eq_none_iff.mp clean⟩,
      fun clean => Option.map_eq_none_iff.mpr clean.2⟩

/-- Lines assemble if none of their labels has a fault and their statements assemble. -/
theorem map_assemble_eq_iff {labels : LabelTable} {lines : List SourceLine}
    {results : List (Option Record)} :
    lines.map (assemble labels) = results.map .ok ↔
      (∀ line ∈ lines, line.labelFault? labels = none) ∧
        lines.map (statement? labels) = results.map .ok := by
  induction lines generalizing results with
  | nil =>
    cases results with
    | nil => exact ⟨fun _ => ⟨nofun, rfl⟩, fun _ => rfl⟩
    | cons result results => exact ⟨nofun, fun h => nomatch h.2⟩
  | cons line lines ih =>
    cases results with
    | nil => exact ⟨nofun, fun h => nomatch h.2⟩
    | cons result results =>
      simp only [List.map_cons, List.cons.injEq, List.forall_mem_cons, ih, assemble_eq_ok_iff]
      exact ⟨fun ⟨⟨a, b⟩, c, d⟩ => ⟨⟨a, c⟩, b, d⟩, fun ⟨⟨a, c⟩, b, d⟩ => ⟨⟨a, b⟩, c, d⟩⟩

end SourceLine

namespace Program

/-- **Lines assemble exactly if no label is defined twice, nothing else stands before a colon, and
    every statement assembles.** -/
theorem ofLines_eq_ok_iff {lines : List SourceLine}
    (nodup : (LabelTable.ofLines lines).defs.Nodup) {program : Program} :
    ofLines lines = .ok program ↔
      ((LabelTable.ofLines lines).defs.map LabelDef.name).Nodup ∧
      (∀ line ∈ lines, line.badLabel = none) ∧
      ∃ results : List (Option Record),
        lines.map (statement? (.ofLines lines)) = results.map .ok ∧
        program = ⟨(results.filterMap id).toArray, .ofLines lines⟩ := by
  have clean : (∀ line ∈ lines, line.labelFault? (.ofLines lines) = none) ↔
      ((LabelTable.ofLines lines).defs.map LabelDef.name).Nodup ∧
        ∀ line ∈ lines, line.badLabel = none := by
    rw [LabelTable.nodup_names_iff nodup]
    simp only [labelFault?_eq_none_iff, LabelTable.ofLines, List.mem_flatMap, forall_exists_index,
      and_imp]
    exact ⟨fun h => ⟨fun d line mem defines => (h line mem).1 d defines,
        fun line mem => (h line mem).2⟩,
      fun h line mem => ⟨fun d defines => h.1 d line mem defines, h.2 line mem⟩⟩
  rw [← and_assoc, ← clean]
  unfold ofLines SourceLine.records
  constructor
  · intro assembled
    obtain ⟨records, collected, same⟩ := bind_eq_ok.mp assembled
    obtain ⟨results, each, same'⟩ := bind_eq_ok.mp collected
    cases same
    cases same'
    obtain ⟨clean, statements⟩ := map_assemble_eq_iff.mp (mapM_eq_ok_iff.mp each)
    exact ⟨clean, results, statements, rfl⟩
  · rintro ⟨clean, results, statements, rfl⟩
    have each := mapM_eq_ok_iff.mpr (map_assemble_eq_iff.mpr ⟨clean, statements⟩)
    rw [each]
    rfl

end Program

/-- The definitions of a source are all different. -/
theorem nodup_tableOf (raws : List (List Char)) : (tableOf raws).defs.Nodup :=
  (pairwise_tableOf raws).imp fun before same => (same ▸ before).asymm (same ▸ before)

/-! ## 7. Lines in other places -/

namespace SourceLine

theorem place_append (number slot : Nat) (before after : List (List Char)) :
    place [] number slot (before ++ after) = place [] number slot before ++
      place [] (number + before.length) (slot + before.countP bearsStatement) after := by
  induction before generalizing number slot with
  | nil => rfl
  | cons raw before ih =>
    rw [List.cons_append, place_cons, place_cons, ih, nextSlot_ofText, List.length_cons,
      List.countP_cons, List.cons_append]
    congr 3 <;> omega

/-- **Behind other lines** lines are numbered and counted further on. -/
theorem place_relocate (number slot further distance : Nat) (raws : List (List Char)) :
    place [] (number + further) (slot + distance) raws =
      (place [] number slot raws).map (relocate (· + further) distance) := by
  induction raws generalizing number slot with
  | nil => rfl
  | cons raw raws ih =>
    have nextNumber : number + further + 1 = number + 1 + further := by omega
    have nextSlot : (ofText (number + further) (slot + distance) raw).nextSlot =
        (ofText number slot raw).nextSlot + distance := by
      rw [nextSlot_ofText, nextSlot_ofText]
      omega
    rw [place_cons, place_cons, List.map_cons, nextNumber, nextSlot, ih]
    rfl

end SourceLine

end

end Rv32i
