import Rv32i.Proofs.Assembly.Operands
import Rv32i.Proofs.Assembly.Placement

/-!
# Listings reassemble

The listing of instructions, one a line, is a source again. The main statement, `parse_listing`,
says that it assembles and that its records decode to the instructions it was written from.

* `Listed` texts hold nothing that ends a line or a statement, so a listed line is its statement;
* `readOperands_three`, `readOperands_based` and the others read the operands of each format back;
* `assemble_listing` puts them together for one instruction, whatever the labels.
-/

namespace Rv32i

open Text

/-! ## 1. Listed texts -/

/-- The characters of listings. -/
def isListed (c : Char) : Bool :=
  isPlain c || c = ' ' || c = ',' || c = '(' || c = ')'

/-- A text of such characters with no blank at either end. -/
structure Listed (text : List Char) : Prop where
  nonempty : text ≠ []
  first : ∀ c ∈ text.head?, isBlank c = false
  last : ∀ c ∈ text.getLast?, isBlank c = false
  chars : ∀ c ∈ text, isListed c = true

theorem Listed.not_mem {text : List Char} (h : Listed text) {c : Char}
    (hc : isListed c = false) : c ∉ text := by
  intro mem
  rw [h.chars c mem] at hc
  cases hc

theorem Listed.trim_eq {text : List Char} (h : Listed text) : trim text = text :=
  trim_eq_self h.first h.last

theorem Token.listed {cs : List Char} (h : Token cs) : Listed cs := by
  refine ⟨h.nonempty, fun c mem => h.notBlank c (List.mem_of_head? mem),
    fun c mem => h.notBlank c (List.mem_of_getLast? mem), fun c mem => ?_⟩
  rw [isListed, h.plain c mem]
  rfl

/-- Listed texts with separators in between make up a listed text. -/
theorem Listed.append {a b : List Char} (ha : Listed a) (sep : List Char) (hb : Listed b)
    (hs : sep.all isListed = true) : Listed (a ++ (sep ++ b)) := by
  refine ⟨?_, fun c mem => ?_, fun c mem => ?_, fun c mem => ?_⟩
  · exact List.append_ne_nil_of_left_ne_nil ha.nonempty _
  · refine ha.first c ?_
    rw [List.head?_append] at mem
    rw [List.head?_eq_some_head ha.nonempty] at mem ⊢
    exact mem
  · refine hb.last c ?_
    rw [List.getLast?_append, List.getLast?_append] at mem
    rw [List.getLast?_eq_some_getLast hb.nonempty] at mem ⊢
    exact mem
  · rcases List.mem_append.mp mem with mem | mem
    · exact ha.chars c mem
    · rcases List.mem_append.mp mem with mem | mem
      · exact List.all_eq_true.mp hs c mem
      · exact hb.chars c mem

section

variable {a b c z : List Char} (ha : Token a) (hb : Token b) (hc : Token c) (hz : Token z)

include ha hb in
theorem listed_two : Listed (Operands.two a b) :=
  ha.listed.append [',', ' '] hb.listed (by decide)

include ha hb hc in
theorem listed_three : Listed (Operands.three a b c) :=
  ha.listed.append [',', ' '] (listed_two hb hc) (by decide)

include ha hb hz in
theorem listed_based : Listed (Operands.based a z b) := by
  have close : Listed [')'] := by
    refine ⟨List.cons_ne_nil _ _, fun c mem => ?_, fun c mem => ?_, fun c mem => ?_⟩
    · cases mem
      decide
    · cases mem
      decide
    · rw [List.mem_singleton.mp mem]
      decide
  have inner : Listed (b ++ [')']) := hb.listed.append [] close (by decide)
  exact ha.listed.append [',', ' '] (hz.listed.append ['('] inner (by decide)) (by decide)

end

/-! ## 2. Canonical spellings -/

theorem token_spelling (m : Mnemonic) : Token m.spelling.toList := by
  have all : ∀ m ∈ Mnemonic.all, m.spelling.toList ≠ [] ∧
      m.spelling.toList.all isPlain = true := by decide
  obtain ⟨nonempty, plain⟩ := all m m.mem_all
  exact ⟨nonempty, List.all_eq_true.mp plain⟩

theorem ofText?_spelling (m : Mnemonic) : Mnemonic.ofText? m.spelling.toList = some m := by
  have all : ∀ m ∈ Mnemonic.all, Mnemonic.ofText? m.spelling.toList = some m := by decide
  exact all m m.mem_all

theorem token_number (r : Reg) : Token (Reg.number r).toList := by
  have all : ∀ r : Reg, (Reg.number r).toList ≠ [] ∧
      (Reg.number r).toList.all isPlain = true := by decide
  obtain ⟨nonempty, plain⟩ := all r
  exact ⟨nonempty, List.all_eq_true.mp plain⟩

theorem token_decimal (n : Nat) : Token (decimal n).toList := by
  rw [decimal, String.toList_ofList]
  exact token_toDigits (by decide) (by decide) n

theorem token_signed (z : Int) : Token (signed z).toList := by
  unfold signed
  split
  · rw [String.toList_append]
    exact (token_decimal z.natAbs).cons (by decide)
  · exact token_decimal z.natAbs

theorem token_hex (n : Nat) : Token ("0x" ++ hex n).toList := by
  have digits : Token (hex n).toList := by
    rw [hex, String.toList_ofList]
    exact token_toDigits (by decide) (by decide) n
  rw [String.toList_append]
  exact (digits.cons (by decide)).cons (by decide)

/-! ## 3. Operands of each format -/

namespace Operands

theorem part_number (r : Reg) : Part (Reg.number r).toList :=
  part_of_token (token_number r)

theorem addressParts_signed (reg base : Reg) (offset : Int) (opcode : Mnemonic) :
    addressParts opcode
        (based (Reg.number reg).toList (signed offset).toList (Reg.number base).toList) =
      .ok ⟨(Reg.number reg).toList, (Reg.number base).toList, some (signed offset).toList⟩ := by
  have written := part_of_token (token_signed offset)
  rw [addressParts_listed (part_number reg) (part_number base) (.inr written),
    given_of_part written]

end Operands

namespace Statement

open Operands

section

variable {labels : LabelTable} {record : Record}

theorem readOperands_r (hf : record.format = .r) (rd rs1 rs2 : Reg) :
    readOperands labels record
        (three (Reg.number rd).toList (Reg.number rs1).toList (Reg.number rs2).toList) =
      .ok { record with rd := some rd.toByte, rs1 := some rs1.toByte, rs2 := some rs2.toByte } := by
  have parts := threeParts_listed (part_number rd) (part_number rs1) (part_number rs2)
  simp only [readOperands, hf, parts, ok_bind, register_number]
  rfl

theorem readOperands_i (hf : record.format = .i) (rd rs1 : Reg) {text : List Char} {imm : Word}
    (token : Token text) (value : immediate (.signed 12) text = .ok imm) :
    readOperands labels record (three (Reg.number rd).toList (Reg.number rs1).toList text) =
      .ok { record with rd := some rd.toByte, rs1 := some rs1.toByte, imm := some imm } := by
  have parts := threeParts_listed (part_number rd) (part_number rs1) (part_of_token token)
  simp only [readOperands, hf, parts, ok_bind, register_number, value]
  rfl

/-- Loads and register jumps write their operands alike. -/
theorem readOperands_based (hf : record.format = .il ∨ record.format = .jalr) (rd rs1 : Reg)
    {offset : Word} (fits : (Field.signed 12).admits offset.toInt = true) :
    readOperands labels record
        (based (Reg.number rd).toList (signed offset.toInt).toList (Reg.number rs1).toList) =
      .ok { record with rd := some rd.toByte, rs1 := some rs1.toByte, imm := some offset } := by
  have parts := addressParts_signed rd rs1 offset.toInt
  have value := immediate_signed fits
  rcases hf with hf | hf
  all_goals
    simp only [readOperands, hf, parts, ok_bind, register_number, Operands.offset, value]
    rfl

theorem readOperands_s (hf : record.format = .s) (rs1 rs2 : Reg) {offset : Word}
    (fits : (Field.signed 12).admits offset.toInt = true) :
    readOperands labels record
        (based (Reg.number rs2).toList (signed offset.toInt).toList (Reg.number rs1).toList) =
      .ok { record with rs1 := some rs1.toByte, rs2 := some rs2.toByte, imm := some offset } := by
  have parts := addressParts_signed rs2 rs1 offset.toInt
  have value := immediate_signed fits
  simp only [readOperands, hf, parts, ok_bind, register_number, Operands.offset, value]
  rfl

theorem readOperands_sb (hf : record.format = .sb) (rs1 rs2 : Reg) {offset : Word}
    (fits : (Field.signed 13).admits offset.toInt = true) :
    readOperands labels record
        (three (Reg.number rs1).toList (Reg.number rs2).toList (signed offset.toInt).toList) =
      .ok { record with
        rs1 := some rs1.toByte, rs2 := some rs2.toByte, imm := some offset, label := none } := by
  have parts := threeParts_listed (part_number rs1) (part_number rs2)
    (part_of_token (token_signed offset.toInt))
  simp only [readOperands, hf, parts, ok_bind, register_number, target_signed _ _ fits]
  rfl

theorem readOperands_uj (hf : record.format = .uj) (rd : Reg) {offset : Word}
    (fits : (Field.signed 21).admits offset.toInt = true) :
    readOperands labels record (two (Reg.number rd).toList (signed offset.toInt).toList) =
      .ok { record with rd := some rd.toByte, imm := some offset, label := none } := by
  have parts := twoParts_listed (part_number rd) (part_of_token (token_signed offset.toInt))
  simp only [readOperands, hf, parts, ok_bind, register_number, target_signed _ _ fits]
  rfl

theorem readOperands_u (hf : record.format = .u) (rd : Reg) {n : Nat} (fits : n < 2 ^ 20) :
    readOperands labels record (two (Reg.number rd).toList ("0x" ++ hex n).toList) =
      .ok { record with rd := some rd.toByte, imm := some (BitVec.ofNat 32 n) } := by
  have parts := twoParts_listed (part_number rd) (part_of_token (token_hex n))
  simp only [readOperands, hf, parts, ok_bind, register_number, immediate_hex fits]
  rfl

theorem readOperands_hlt (hf : record.format = .hlt) :
    readOperands labels record [] = .ok record := by
  simp only [readOperands, hf]
  rfl

end

/-! ## 4. One instruction -/

/-- The first blank ends the mnemonic. -/
theorem split_listed {mnemonic operands : List Char} (token : Token mnemonic)
    (listed : Listed operands) : split (mnemonic ++ ' ' :: operands) = (mnemonic, operands) := by
  have cutted : cut isBlank (mnemonic ++ ' ' :: operands) = some (mnemonic, operands) :=
    cut_append token.notBlank (by decide) operands
  simp only [split, cutted, listed.trim_eq]

theorem split_token {mnemonic : List Char} (token : Token mnemonic) :
    split mnemonic = (mnemonic, []) := by
  simp only [split, cut_of_plain token.notBlank]

/-- A statement in canonical spelling is read by its mnemonic. -/
theorem assemble_of_split {text operands : List Char} {m : Mnemonic}
    (h : split text = (m.spelling.toList, operands)) (labels : LabelTable) (slot line : Nat) :
    assemble labels slot line text =
      readOperands labels (Record.bare m slot line (String.ofList text)) operands := by
  simp only [assemble, h, ofText?_spelling]

end Statement

namespace Instruction

/-- The operands of an instruction as they are listed. -/
def listedOperands : Instruction → List Char
  | op _ rd rs1 rs2 =>
    Operands.three (Reg.number rd).toList (Reg.number rs1).toList (Reg.number rs2).toList
  | opImm _ rd rs1 imm =>
    Operands.three (Reg.number rd).toList (Reg.number rs1).toList (signed imm.toInt).toList
  | shiftImm _ rd rs1 shamt =>
    Operands.three (Reg.number rd).toList (Reg.number rs1).toList (decimal shamt).toList
  | load _ rd rs1 offset | jalr rd rs1 offset =>
    Operands.based (Reg.number rd).toList (signed offset.toInt).toList (Reg.number rs1).toList
  | store _ rs1 rs2 offset =>
    Operands.based (Reg.number rs2).toList (signed offset.toInt).toList (Reg.number rs1).toList
  | branch _ rs1 rs2 offset =>
    Operands.three (Reg.number rs1).toList (Reg.number rs2).toList (signed offset.toInt).toList
  | jal rd offset => Operands.two (Reg.number rd).toList (signed offset.toInt).toList
  | lui rd imm | auipc rd imm =>
    Operands.two (Reg.number rd).toList ("0x" ++ hex (imm >>> 12).toNat).toList
  | halt => []

/-- A blank separates the mnemonic from the operands. -/
theorem listing_toList {i : Instruction} (h : i ≠ halt) :
    i.listing.toList = i.mnemonic.spelling.toList ++ ' ' :: i.listedOperands := by
  rw [listing, String.toList_append]
  congr 1
  cases i
  case halt => exact absurd rfl h
  all_goals simp [operandText, operandText.based, listedOperands, Operands.two, Operands.three,
    Operands.based]

theorem listed_listedOperands {i : Instruction} (h : i ≠ halt) : Listed i.listedOperands := by
  cases i with
  | op _ rd rs1 rs2 => exact listed_three (token_number rd) (token_number rs1) (token_number rs2)
  | opImm _ rd rs1 imm => exact listed_three (token_number rd) (token_number rs1) (token_signed _)
  | shiftImm _ rd rs1 shamt =>
    exact listed_three (token_number rd) (token_number rs1) (token_decimal _)
  | load _ rd rs1 offset => exact listed_based (token_number rd) (token_number rs1) (token_signed _)
  | jalr rd rs1 offset => exact listed_based (token_number rd) (token_number rs1) (token_signed _)
  | store _ rs1 rs2 offset =>
    exact listed_based (token_number rs2) (token_number rs1) (token_signed _)
  | branch _ rs1 rs2 offset =>
    exact listed_three (token_number rs1) (token_number rs2) (token_signed _)
  | jal rd offset => exact listed_two (token_number rd) (token_signed _)
  | lui rd imm => exact listed_two (token_number rd) (token_hex _)
  | auipc rd imm => exact listed_two (token_number rd) (token_hex _)
  | halt => exact absurd rfl h

/-- A listing holds nothing that ends a line or a statement. -/
theorem listed_listing (i : Instruction) : Listed i.listing.toList := by
  by_cases h : i = halt
  · subst h
    exact (token_spelling .hlt).listed
  · rw [listing_toList h]
    exact (token_spelling _).listed.append [' '] (listed_listedOperands h) (by decide)

theorem split_listing (i : Instruction) :
    Statement.split i.listing.toList = (i.mnemonic.spelling.toList, i.listedOperands) := by
  by_cases h : i = halt
  · subst h
    exact Statement.split_token (token_spelling .hlt)
  · rw [listing_toList h]
    exact Statement.split_listed (token_spelling _) (listed_listedOperands h)

end Instruction

/-- **A listed instruction assembles to a record that decodes to it.** -/
theorem assemble_listing (labels : LabelTable) (slot line : Nat) {i : Instruction} (fits : i.Fits) :
    ∃ r, Statement.assemble labels slot line i.listing.toList = .ok r ∧ r.decode = .ok i := by
  have hf : (Record.bare i.mnemonic slot line (String.ofList i.listing.toList)).format =
      i.operation.format := Operation.format_mnemonic i.operation
  rw [Statement.assemble_of_split i.split_listing]
  cases i with
  | op o rd rs1 rs2 =>
    refine ⟨_, Statement.readOperands_r hf rd rs1 rs2, Record.decode_of_operands rfl rfl rfl ?_⟩
    exact read_three_eq_ok.mpr ⟨_, _, _, Record.rdReg_of_recorded rfl,
      Record.rs1Reg_of_recorded rfl, Record.rs2Reg_of_recorded rfl, rfl⟩
  | opImm o rd rs1 imm =>
    refine ⟨_, Statement.readOperands_i hf rd rs1 (token_signed _) (Operands.immediate_signed fits),
      Record.decode_of_operands rfl rfl rfl ?_⟩
    exact read_three_eq_ok.mpr ⟨_, _, _, Record.rdReg_of_recorded rfl,
      Record.rs1Reg_of_recorded rfl,
      Record.signedImm_of_admits rfl (by decide) (by decide) fits, rfl⟩
  | shiftImm o rd rs1 shamt =>
    refine ⟨_, Statement.readOperands_i hf rd rs1 (token_decimal _)
      (Operands.immediate_decimal (by omega)), Record.decode_of_operands rfl rfl rfl ?_⟩
    exact read_three_eq_ok.mpr ⟨_, _, _, Record.rdReg_of_recorded rfl,
      Record.rs1Reg_of_recorded rfl, Record.shiftAmount_ofNat shamt.isLt rfl, rfl⟩
  | load o rd rs1 offset =>
    refine ⟨_, Statement.readOperands_based (.inl hf) rd rs1 fits,
      Record.decode_of_operands rfl rfl rfl ?_⟩
    exact read_three_eq_ok.mpr ⟨_, _, _, Record.rdReg_of_recorded rfl,
      Record.rs1Reg_of_recorded rfl,
      Record.signedImm_of_admits rfl (by decide) (by decide) fits, rfl⟩
  | store width rs1 rs2 offset =>
    refine ⟨_, Statement.readOperands_s hf rs1 rs2 fits, Record.decode_of_operands rfl rfl rfl ?_⟩
    exact read_three_eq_ok.mpr ⟨_, _, _, Record.rs1Reg_of_recorded rfl,
      Record.rs2Reg_of_recorded rfl,
      Record.signedImm_of_admits rfl (by decide) (by decide) fits, rfl⟩
  | branch cond rs1 rs2 offset =>
    obtain ⟨admits, even⟩ := fits
    refine ⟨_, Statement.readOperands_sb hf rs1 rs2 admits,
      Record.decode_of_operands rfl rfl rfl ?_⟩
    exact read_three_eq_ok.mpr ⟨_, _, _, Record.rs1Reg_of_recorded rfl,
      Record.rs2Reg_of_recorded rfl,
      Record.evenImm_of_admits rfl (by decide) (by decide) admits even, rfl⟩
  | jal rd offset =>
    obtain ⟨admits, even⟩ := fits
    refine ⟨_, Statement.readOperands_uj hf rd admits, Record.decode_of_operands rfl rfl rfl ?_⟩
    exact read_two_eq_ok.mpr ⟨_, _, Record.rdReg_of_recorded rfl,
      Record.evenImm_of_admits rfl (by decide) (by decide) admits even, rfl⟩
  | jalr rd rs1 offset =>
    refine ⟨_, Statement.readOperands_based (.inr hf) rd rs1 fits,
      Record.decode_of_operands rfl rfl rfl ?_⟩
    exact read_three_eq_ok.mpr ⟨_, _, _, Record.rdReg_of_recorded rfl,
      Record.rs1Reg_of_recorded rfl,
      Record.signedImm_of_admits rfl (by decide) (by decide) fits, rfl⟩
  | lui rd imm =>
    refine ⟨_, Statement.readOperands_u hf rd (Word.upper_lt imm),
      Record.decode_of_operands rfl rfl rfl ?_⟩
    exact read_two_eq_ok.mpr ⟨_, _, Record.rdReg_of_recorded rfl,
      Record.upperImm_of_field fits rfl, rfl⟩
  | auipc rd imm =>
    refine ⟨_, Statement.readOperands_u hf rd (Word.upper_lt imm),
      Record.decode_of_operands rfl rfl rfl ?_⟩
    exact read_two_eq_ok.mpr ⟨_, _, Record.rdReg_of_recorded rfl,
      Record.upperImm_of_field fits rfl, rfl⟩
  | halt =>
    exact ⟨_, Statement.readOperands_hlt hf, Record.decode_of_operands rfl rfl rfl rfl⟩

/-! ## 5. A whole listing -/

/-- The listing of instructions, one a line, with every line ended. -/
def endedListing (is : List Instruction) : String :=
  String.join (is.map fun i => i.listing ++ "\n")

/-- The listing of instructions, one a line, with line feeds in between only. -/
def separatedListing (is : List Instruction) : String :=
  "\n".intercalate (is.map Instruction.listing)

theorem lines_endedListing (is : List Instruction) :
    lines (endedListing is).toList = is.map (·.listing.toList) ++ [[]] := by
  induction is with
  | nil => rfl
  | cons i is ih =>
    have text : (endedListing (i :: is)).toList =
        i.listing.toList ++ '\n' :: (endedListing is).toList := by
      simp only [endedListing, List.map_cons, String.join_cons, String.toList_append,
        List.append_assoc]
      rfl
    rw [text, lines_append (i.listed_listing.not_mem (by decide)), ih]
    rfl

theorem lines_separatedListing (i : Instruction) (is : List Instruction) :
    lines (separatedListing (i :: is)).toList = (i :: is).map (·.listing.toList) := by
  induction is generalizing i with
  | nil =>
    rw [separatedListing, List.map_singleton, String.intercalate_singleton,
      lines_of_not_mem (i.listed_listing.not_mem (by decide))]
    rfl
  | cons j is ih =>
    have text : (separatedListing (i :: j :: is)).toList =
        i.listing.toList ++ '\n' :: (separatedListing (j :: is)).toList := by
      simp only [separatedListing, List.map_cons, String.intercalate_cons_cons,
        String.toList_append, List.append_assoc]
      rfl
    rw [text, lines_append (i.listed_listing.not_mem (by decide)), ih]
    rfl

/-- Either way the lines are the listings, with at most one empty line after them. -/
theorem lines_of_listing {is : List Instruction} {text : String}
    (h : text = endedListing is ∨ text = separatedListing is) :
    ∃ blanks, lines text.toList = is.map (·.listing.toList) ++ List.replicate blanks [] := by
  rcases h with rfl | rfl
  · exact ⟨1, lines_endedListing is⟩
  · cases is with
    | nil => exact ⟨1, rfl⟩
    | cons i is =>
      refine ⟨0, ?_⟩
      rw [lines_separatedListing, List.replicate_zero, List.append_nil]

namespace SourceLine

/-- A listed line contributes its instruction. -/
theorem assemble_ofText_listing (labels : LabelTable) (number slot : Nat) {i : Instruction}
    (fits : i.Fits) :
    ∃ r, (ofText number slot i.listing.toList).assemble labels = .ok (some r) ∧
      r.decode = .ok i := by
  have listed := i.listed_listing
  obtain ⟨r, assembled, decoded⟩ := assemble_listing labels slot number fits
  refine ⟨r, ?_, decoded⟩
  have filled : i.listing.toList.isEmpty = false := List.isEmpty_eq_false_iff.mpr listed.nonempty
  rw [ofText_of_plain (listed.not_mem (by decide)) (listed.not_mem (by decide)) listed.trim_eq]
  exact assemble_eq_ok_iff.mpr
    ⟨rfl, statement?_eq_ok_iff.mpr (.inr ⟨filled, r, rfl, assembled⟩)⟩

/-- An empty line contributes nothing. -/
theorem assemble_ofText_nil (labels : LabelTable) (number slot : Nat) :
    (ofText number slot []).assemble labels = .ok none := by
  rw [ofText_of_plain (by decide) (by decide) rfl]
  rfl

theorem assemble_blanks (labels : LabelTable) (blanks number slot : Nat) :
    (place [] number slot (List.replicate blanks [])).map (assemble labels) =
      (List.replicate blanks none).map .ok := by
  induction blanks generalizing number slot with
  | zero => rfl
  | succ blanks ih =>
    rw [List.replicate_succ, place_cons, List.map_cons, assemble_ofText_nil, ih]
    rfl

/-- **The lines of a listing contribute its instructions**, in order. -/
theorem assemble_lines_listing (labels : LabelTable) (blanks : Nat) {is : List Instruction}
    (fits : ∀ i ∈ is, i.Fits) (number slot : Nat) :
    ∃ rs : List Record,
      (place [] number slot (is.map (·.listing.toList) ++ List.replicate blanks [])).map
        (assemble labels) = (rs.map some ++ List.replicate blanks none).map .ok ∧
      rs.map Record.decode = is.map .ok := by
  induction is generalizing number slot with
  | nil => exact ⟨[], assemble_blanks labels blanks number slot, rfl⟩
  | cons i is ih =>
    obtain ⟨r, here, decoded⟩ :=
      assemble_ofText_listing labels number slot (fits i List.mem_cons_self)
    obtain ⟨rs, later, rest⟩ := ih (fun j mem => fits j (List.mem_cons_of_mem i mem))
      (number + 1) (ofText number slot i.listing.toList).nextSlot
    refine ⟨r :: rs, ?_, ?_⟩
    · rw [List.map_cons, List.cons_append, place_cons, List.map_cons, here, later]
      rfl
    · rw [List.map_cons, List.map_cons, decoded, rest]

end SourceLine

/-- **Listings reassemble.** The listing of what records decode to, whichever way its lines are
    ended, is a source. Its program has as many instructions, and its records decode to the same
    ones in the same order. -/
theorem parse_listing {records : List Record} {is : List Instruction} {text : String}
    (decoded : records.map Record.decode = is.map .ok)
    (listed : text = endedListing is ∨ text = separatedListing is) :
    ∃ program, Program.parse text = .ok program ∧ program.size = records.length ∧
      program.records.toList.map Record.decode = is.map .ok := by
  have fits : ∀ i ∈ is, i.Fits := by
    intro i mem
    have listed : (.ok i : Except DecodeError Instruction) ∈ records.map Record.decode :=
      decoded ▸ List.mem_map_of_mem mem
    obtain ⟨r, -, hr⟩ := List.mem_map.mp listed
    exact Record.fits_of_decode hr
  obtain ⟨blanks, cut⟩ := lines_of_listing listed
  obtain ⟨rs, each, same⟩ := SourceLine.assemble_lines_listing
    (.ofLines (SourceLine.all text.toList)) blanks fits 1 0
  have kept : (rs.map some ++ List.replicate blanks none).filterMap id = rs := by
    simp [List.filterMap_append, List.filterMap_map]
  rw [← cut] at each
  refine ⟨_, Program.assemble_eq_ok_iff.mpr ⟨_, each, rfl⟩, ?_, ?_⟩
  · show ((rs.map some ++ List.replicate blanks none).filterMap id).length = records.length
    rw [kept]
    have lengths := congrArg List.length (same.trans decoded.symm)
    rwa [List.length_map, List.length_map] at lengths
  · show ((rs.map some ++ List.replicate blanks none).filterMap id).map Record.decode = _
    rw [kept, same]

/-- A backward branch and an upper immediate, from records that no source was parsed to. -/
theorem parse_listing_pair :
    let is : List Instruction := [.branch .ne 5 0 (-4), .lui 1 0xFFFFF000, .halt]
    ∃ program, Program.parse "bne x5, x0, -4\nlui x1, 0xfffff\nhlt\n" = .ok program ∧
      program.size = 3 ∧ program.records.toList.map Record.decode = is.map .ok := by
  intro is
  have decoded : Record.decode <$> [
      { opcode := .bne, format := .sb, index := 7, line := 0, source := "", rs1 := some 5,
        rs2 := some 0, imm := some (-4), label := some "back" },
      { opcode := .lui, format := .u, index := 7, line := 0, source := "", rd := some 1,
        imm := some 0xFFFFF },
      { opcode := .hlt, format := .hlt, index := 7, line := 0, source := "" }] = is.map .ok := rfl
  exact parse_listing decoded (.inl (by decide))

end Rv32i
