import Rv32i.Proofs.Assembly.Listing

/-!
# Address operands

Loads, stores and register jumps take a register and an address. Their operands may be written
`reg, base, offset` or `reg, offset(base)`.

* `Operands.Written` says which texts these are, without the functions that take them apart, and
  `AddressParts.Means` what the parts stand for;
* `Operands.addressValues_iff`: such a text is read to its values, and no other text is read;
* `Statement.assemble_address`: so is the line of a statement.
-/

namespace Rv32i

open Text

namespace Operands

/-! ## 1. What may be written -/

/-- Characters between operands that are not in brackets. -/
def isGap (c : Char) : Bool :=
  isBlank c || c = ',' || c = ')'

/-- A run of characters between which and the next there is a gap. -/
structure Piece (cs : List Char) : Prop where
  nonempty : cs ≠ []
  apart : ∀ c ∈ cs, isGap c = false
  paren : '(' ∉ cs

/-- **An operand text and its parts.** Without an opening parenthesis it is three pieces with gaps
    in between; with one it is a register, a comma, an offset or none and a base in parentheses,
    with blanks anywhere around them. -/
inductive Written : List Char → AddressParts → Prop
  | listed {s₀ reg s₁ base s₂ offset s₃ : List Char}
      (gaps : ∀ s ∈ [s₀, s₁, s₂, s₃], ∀ c ∈ s, isGap c = true) (apart : s₁ ≠ [] ∧ s₂ ≠ [])
      (pieces : Piece reg ∧ Piece base ∧ Piece offset) :
    Written (s₀ ++ (reg ++ (s₁ ++ (base ++ (s₂ ++ (offset ++ s₃)))))) ⟨reg, base, some offset⟩
  | bracketed {s₀ reg s₁ s₂ s₃ s₄ base s₅ s₆ : List Char} {offset : Option (List Char)}
      (blanks : ∀ s ∈ [s₀, s₁, s₂, s₃, s₄, s₅, s₆], Blank s) :
    Written (s₀ ++ reg ++ s₁ ++ ',' :: (s₂ ++ offset.getD [] ++ s₃ ++
      '(' :: (s₄ ++ base ++ s₅ ++ ')' :: s₆))) ⟨reg, base, offset⟩

/-- An offset that is not written is zero. -/
def OffsetMeans : Option (List Char) → Int → Prop
  | some text, z => literal? text = some z
  | none, z => z = 0

/-- The parts stand for two registers and an offset that fits its field. -/
structure AddressParts.Means (ps : AddressParts) (reg base : Reg) (offset : Int) : Prop where
  named : Reg.ofText? ps.reg = some reg
  based : Reg.ofText? ps.base = some base
  written : OffsetMeans ps.offset offset
  fits : -2048 ≤ offset ∧ offset ≤ 2047

/-! ## 2. Reading the parts -/

theorem ofText?_trim (cs : List Char) : Reg.ofText? (trim cs) = Reg.ofText? cs := by
  rw [Reg.ofText?, trim_trim, Reg.ofText?]

theorem literal?_trim (cs : List Char) : literal? (trim cs) = literal? cs := by
  rw [literal?, trim_trim, literal?]

/-- What names a register is a token. -/
theorem token_of_ofText? {cs : List Char} {r : Reg} (h : Reg.ofText? cs = some r) :
    Token (trim cs) :=
  token_of_map_toLower (Reg.token_of_mem_spellings (Reg.lookup_spellings_iff.mp h))

/-- What names a mnemonic is a token. -/
theorem token_of_mnemonic {cs : List Char} {m : Mnemonic} (h : Mnemonic.ofText? cs = some m) :
    Token cs := by
  unfold Mnemonic.ofText? at h
  have same : m.spelling.toList = cs.map Char.toLower := by simpa using List.find?_some h
  have spelled := token_spelling m
  rw [same] at spelled
  exact token_of_map_toLower spelled

theorem part_of_literal? {cs : List Char} {z : Int} (h : literal? cs = some z) :
    Part (trim cs) := by
  rcases token_of_literal? h with token | ⟨body, token, eq⟩
  · exact part_of_token token
  · rw [eq]
    exact ⟨List.cons_ne_nil _ _, List.forall_mem_cons.mpr ⟨by decide, (part_of_token token).apart⟩⟩

/-- The values of the parts, the register first. -/
def AddressParts.values (ps : AddressParts) : Except ParseFault (Byte × Byte × Word) := do
  let reg ← register ps.reg
  let base ← register ps.base
  let imm ← Operands.offset ps.offset
  return (reg, base, imm)

theorem fit_offset_eq_ok_iff {z : Int} {w : Word} :
    fit (.signed 12) z = .ok w ↔ (-2048 ≤ z ∧ z ≤ 2047) ∧ w = BitVec.ofInt 32 z := by
  have admits : (Field.signed 12).admits z = true ↔ -2048 ≤ z ∧ z ≤ 2047 := Field.admits_iff
  rw [fit_eq_ok_iff, admits]

theorem offset_eq_ok_iff {text : Option (List Char)} {w : Word} :
    offset text = .ok w ↔ ∃ z, OffsetMeans text z ∧
      (-2048 ≤ z ∧ z ≤ 2047) ∧ w = BitVec.ofInt 32 z := by
  cases text with
  | none =>
    constructor
    · intro h
      cases h
      exact ⟨0, rfl, by decide, rfl⟩
    · rintro ⟨_, rfl, _, rfl⟩
      rfl
  | some text =>
    unfold offset immediate OffsetMeans
    dsimp only
    cases literal? text with
    | none => exact ⟨nofun, fun ⟨_, value, _⟩ => nomatch value⟩
    | some z =>
      refine fit_offset_eq_ok_iff.trans ⟨fun h => ⟨z, rfl, h⟩, ?_⟩
      rintro ⟨_, value, h⟩
      cases value
      exact h

/-- **The values of parts are what they stand for.** -/
theorem values_eq_ok_iff {ps : AddressParts} {v : Byte × Byte × Word} :
    ps.values = .ok v ↔ ∃ reg base z, ps.Means reg base z ∧
      v = (reg.toByte, base.toByte, BitVec.ofInt 32 z) := by
  unfold AddressParts.values
  simp only [bind_eq_ok, register_eq_ok_iff, offset_eq_ok_iff]
  constructor
  · rintro ⟨_, ⟨reg, named, rfl⟩, _, ⟨base, based, rfl⟩, _, ⟨z, written, fits, rfl⟩, h⟩
    cases h
    exact ⟨reg, base, z, ⟨named, based, written, fits⟩, rfl⟩
  · rintro ⟨reg, base, z, means, rfl⟩
    exact ⟨_, ⟨reg, means.named, rfl⟩, _, ⟨base, means.based, rfl⟩, _,
      ⟨z, means.written, means.fits, rfl⟩, rfl⟩

/-! ## 3. Taking the text apart -/

theorem parts_trim (t : List Char) : parts (trim t) = parts t := by
  obtain ⟨before, after, hb, ha, eq⟩ := exists_trim t
  have same : parts (before ++ trim t ++ after) = parts (trim t) := by
    rw [parts, words_append_right fun c mem => isSeparator_of_isBlank (ha c mem),
      words_append_left fun c mem => isSeparator_of_isBlank (hb c mem), parts]
  rw [← same, ← eq]

/-- Outside brackets the separators are the gaps. -/
theorem isSeparator_iff {c : Char} (paren : c ≠ '(') : isSeparator c = isGap c := by
  rw [isSeparator, isGap, decide_eq_false paren, Bool.or_false, Bool.or_comm, Bool.or_assoc]

theorem threeParts_eq_ok_iff {opcode : Mnemonic} {t a b c : List Char} :
    threeParts opcode t = .ok (a, b, c) ↔ parts t = [a, b, c] := by
  unfold threeParts
  split
  · rename_i eq
    rw [eq]
    constructor
    · intro h
      cases h
      rfl
    · intro h
      cases h
      rfl
  · rename_i other
    exact ⟨nofun, fun h => absurd h (other a b c)⟩

theorem parts_of_paren {t : List Char} (paren : '(' ∉ t) : parts t = words isGap t :=
  words_congr fun _ mem => isSeparator_iff fun e => paren (e ▸ mem)

theorem head_gap {gap : List Char} (nonempty : gap ≠ []) (seps : ∀ c ∈ gap, isGap c = true)
    (rest : List Char) : ∀ c ∈ (gap ++ rest).head?, isGap c = true := by
  obtain ⟨d, ds, rfl⟩ := List.exists_cons_of_ne_nil nonempty
  intro c mem
  cases mem
  exact seps d List.mem_cons_self

theorem gap_ne_nil {gap w rest : List Char} (nonempty : w ≠ [])
    (plain : ∀ c ∈ w, isGap c = false) (ends : ∀ c ∈ (gap ++ (w ++ rest)).head?, isGap c = true) :
    gap ≠ [] := by
  rintro rfl
  obtain ⟨d, ds, rfl⟩ := List.exists_cons_of_ne_nil nonempty
  cases (plain d List.mem_cons_self).symm.trans (ends d rfl)

/-- **Three parts without brackets.** -/
theorem parts_eq_three_iff {t reg base offset : List Char} (paren : '(' ∉ t) :
    parts t = [reg, base, offset] ↔ Written t ⟨reg, base, some offset⟩ := by
  rw [parts_of_paren paren]
  constructor
  · intro three
    obtain ⟨s₀, rest, rfl, gap₀, ne, plain, ends, two⟩ := words_eq_cons_iff.mp three
    obtain ⟨s₁, rest, rfl, gap₁, ne₁, plain₁, ends₁, one⟩ := words_eq_cons_iff.mp two
    obtain ⟨s₂, s₃, rfl, gap₂, ne₂, plain₂, -, none⟩ := words_eq_cons_iff.mp one
    simp only [List.mem_append, not_or] at paren
    refine .listed ?_ ⟨gap_ne_nil ne₁ plain₁ ends, gap_ne_nil ne₂ plain₂ ends₁⟩
      ⟨⟨ne, plain, paren.2.1⟩, ⟨ne₁, plain₁, paren.2.2.2.1⟩, ⟨ne₂, plain₂, paren.2.2.2.2.2.1⟩⟩
    simpa using ⟨gap₀, gap₁, gap₂, words_eq_nil_iff.mp none⟩
  · intro written
    cases written with
    | @listed s₀ _ s₁ _ s₂ _ s₃ gaps apart pieces =>
      simp only [List.forall_mem_cons] at gaps
      obtain ⟨gap₀, gap₁, gap₂, gap₃, -⟩ := gaps
      obtain ⟨reg, base, offset⟩ := pieces
      have ends : ∀ c ∈ s₃.head?, isGap c = true := fun c mem => gap₃ c (List.mem_of_head? mem)
      rw [words_append_word gap₀ reg.nonempty reg.apart (head_gap apart.1 gap₁ _),
        words_append_word gap₁ base.nonempty base.apart (head_gap apart.2 gap₂ _),
        words_append_word gap₂ offset.nonempty offset.apart ends, words_eq_nil_iff.mpr gap₃]
    | bracketed => simp at paren

theorem getD_given (text : List Char) : (given text).getD [] = text := by
  unfold given
  split
  · rename_i empty
    rw [List.isEmpty_iff.mp empty]
    rfl
  · rfl

/-- A register and an address in brackets, with blanks around them. -/
theorem written_of_bracketed? {before x y after : List Char} {ps : AddressParts}
    (hb : Blank before) (ha : Blank after) (taken : bracketed? x y = some ps) :
    Written (before ++ (x ++ ',' :: y) ++ after) ps := by
  obtain ⟨z, inner, s₆, rfl, blank, -, -, rfl⟩ := bracketed?_eq_some_iff.mp taken
  obtain ⟨s₀, s₁, h₀, h₁, reg⟩ := exists_trim x
  obtain ⟨s₂, s₃, h₂, h₃, offset⟩ := exists_trim z
  obtain ⟨s₄, s₅, h₄, h₅, base⟩ := exists_trim inner
  have written : Written ((before ++ s₀) ++ trim x ++ s₁ ++ ',' ::
      (s₂ ++ (given (trim z)).getD [] ++ s₃ ++ '(' ::
        (s₄ ++ trim inner ++ s₅ ++ ')' :: (s₆ ++ after))))
      ⟨trim x, trim inner, given (trim z)⟩ := by
    refine .bracketed ?_
    simpa using ⟨hb.append h₀, h₁, h₂, h₃, h₄, h₅, blank.append ha⟩
  rw [getD_given, ← offset, ← base, List.append_assoc before, List.append_assoc before,
    ← reg] at written
  simpa only [List.append_assoc, List.cons_append] using written

/-- **An operand text that is taken apart** was written in one of the two forms. -/
theorem written_of_addressParts {opcode : Mnemonic} {t : List Char} {ps : AddressParts}
    (h : addressParts opcode (trim t) = .ok ps) : Written t ps := by
  unfold addressParts at h
  split at h
  · split at h
    · cases h
    · rename_i x y cutted
      split at h
      · cases h
      · rename_i taken
        cases h
        obtain ⟨comma, isComma, whole⟩ := eq_of_cut cutted
        obtain ⟨before, after, hb, ha, text⟩ := exists_trim t
        rw [whole, of_decide_eq_true isComma] at text
        rw [text]
        exact written_of_bracketed? hb ha taken
  · rename_i paren
    obtain ⟨⟨reg, base, offset⟩, three, same⟩ := bind_eq_ok.mp h
    cases same
    have absent : '(' ∉ t := by
      rw [← mem_trim (by decide), ← List.contains_iff_mem]
      exact paren
    have apart := threeParts_eq_ok_iff.mp three
    rw [parts_trim] at apart
    exact (parts_eq_three_iff absent).mp apart

/-- A text with brackets is cut at its first comma. -/
theorem addressParts_comma {x y : List Char} (comma : ',' ∉ x) (paren : '(' ∈ y)
    {ps : AddressParts} (taken : bracketed? x y = some ps) (opcode : Mnemonic) :
    addressParts opcode (trim (x ++ ',' :: y)) = .ok ps := by
  have same : bracketed? (trimStart x) (trimEnd y) = bracketed? x y := by
    rw [bracketed?, trim_trimStart, trim_trimEnd, bracketed?]
  have inside : (trim (x ++ ',' :: y)).contains '(' = true := by
    rw [List.contains_iff_mem, mem_trim (by decide)]
    exact List.mem_append_right _ (List.mem_cons_of_mem _ paren)
  have first : cut (· = ',') (trim (x ++ ',' :: y)) = some (trimStart x, trimEnd y) := by
    rw [trim_append_cons (by decide)]
    exact cut_append (fun c mem => decide_eq_false fun e =>
      comma ((List.dropWhile_sublist isBlank).mem (e ▸ mem))) (by decide) _
  rw [addressParts, if_pos inside, first]
  simp only [same, taken]

theorem not_mem_gap {gap : List Char} (seps : ∀ c ∈ gap, isGap c = true) : '(' ∉ gap := by
  intro mem
  cases seps _ mem

/-- An offset that means something has no separators in it. -/
theorem OffsetMeans.trimmed {text : Option (List Char)} {z : Int} (h : OffsetMeans text z) :
    (∀ c, isSeparator c = true → c ∉ trim (text.getD [])) ∧
      OffsetMeans (given (trim (text.getD []))) z := by
  cases text with
  | none => exact ⟨fun c _ => List.not_mem_nil, h⟩
  | some text =>
    have part := part_of_literal? h
    refine ⟨fun c sep => part.not_mem sep, ?_⟩
    show OffsetMeans (given (trim text)) z
    rw [given_of_part part]
    exact (literal?_trim text).trans h

/-- Three pieces have no bracket in them or between them, so they are what is taken apart. -/
theorem addressParts_of_three {t reg base offset : List Char} (absent : '(' ∉ t)
    (three : parts t = [reg, base, offset]) (opcode : Mnemonic) :
    addressParts opcode (trim t) = .ok ⟨reg, base, some offset⟩ := by
  rw [← parts_trim] at three
  rw [← mem_trim (by decide), ← List.contains_iff_mem] at absent
  rw [addressParts, if_neg absent]
  exact bind_eq_ok.mpr ⟨_, threeParts_eq_ok_iff.mpr three, rfl⟩

/-- **A text in one of the two forms is taken apart**, if its parts stand for something. -/
theorem addressParts_of_written {t : List Char} {ps : AddressParts} (written : Written t ps)
    {reg base : Reg} {z : Int} (means : ps.Means reg base z) (opcode : Mnemonic) :
    ∃ taken, addressParts opcode (trim t) = .ok taken ∧ taken.Means reg base z := by
  cases written with
  | @listed s₀ r s₁ b s₂ o s₃ gaps apart pieces =>
    refine ⟨⟨r, b, some o⟩, ?_, means⟩
    have absent : '(' ∉ s₀ ++ (r ++ (s₁ ++ (b ++ (s₂ ++ (o ++ s₃))))) := by
      simp only [List.forall_mem_cons] at gaps
      obtain ⟨gap₀, gap₁, gap₂, gap₃, -⟩ := gaps
      simp only [List.mem_append, not_or]
      exact ⟨not_mem_gap gap₀, pieces.1.paren, not_mem_gap gap₁, pieces.2.1.paren,
        not_mem_gap gap₂, pieces.2.2.paren, not_mem_gap gap₃⟩
    have three := (parts_eq_three_iff absent).mpr (.listed gaps apart pieces)
    exact addressParts_of_three absent three opcode
  | @bracketed s₀ r s₁ s₂ s₃ s₄ b s₅ s₆ o blanks =>
    simp only [List.forall_mem_cons] at blanks
    obtain ⟨h₀, h₁, h₂, h₃, h₄, h₅, h₆, -⟩ := blanks
    have partReg := part_of_token (token_of_ofText? means.named)
    have partBase := part_of_token (token_of_ofText? means.based)
    obtain ⟨clean, offset⟩ := means.written.trimmed
    have trimReg := trim_blanks h₀ h₁ r
    have trimOffset := trim_blanks h₂ h₃ (o.getD [])
    have trimBase := trim_blanks h₄ h₅ b
    refine ⟨⟨trim r, trim b, given (trim (o.getD []))⟩, addressParts_comma ?_ (by simp) ?_ opcode,
      ⟨(ofText?_trim r).trans means.named, (ofText?_trim b).trans means.based, offset,
        means.fits⟩⟩
    · rw [← mem_trim (by decide), trimReg]
      exact partReg.not_mem (by decide)
    · refine bracketed?_eq_some_iff.mpr
        ⟨s₂ ++ o.getD [] ++ s₃, s₄ ++ b ++ s₅, s₆, rfl, h₆, ?_, ?_⟩
      · rw [← mem_trim (by decide), trimOffset]
        exact clean '(' (by decide)
      · rw [trimReg, trimBase, trimOffset]
        exact ⟨.of_parts partReg partBase clean, rfl⟩

/-- **The values of an operand text** are those of the parts that are written in it. -/
theorem addressValues_iff {opcode : Mnemonic} {t : List Char} {v : Byte × Byte × Word} :
    (addressParts opcode (trim t) >>= AddressParts.values) = .ok v ↔
      ∃ ps reg base z, Written t ps ∧ ps.Means reg base z ∧
        v = (reg.toByte, base.toByte, BitVec.ofInt 32 z) := by
  rw [bind_eq_ok]
  constructor
  · rintro ⟨ps, taken, values⟩
    obtain ⟨reg, base, z, means, rfl⟩ := values_eq_ok_iff.mp values
    exact ⟨ps, reg, base, z, written_of_addressParts taken, means, rfl⟩
  · rintro ⟨ps, reg, base, z, written, means, rfl⟩
    obtain ⟨taken, apart, means⟩ := addressParts_of_written written means opcode
    exact ⟨taken, apart, values_eq_ok_iff.mpr ⟨reg, base, z, means, rfl⟩⟩

end Operands

/-! ## 4. Statements -/

/-- The record with the values of its operands: the register of a store is read, that of a load or
    a jump is written. -/
def Record.withAddress (r : Record) (v : Byte × Byte × Word) : Record :=
  if r.format = .s then { r with rs2 := some v.1, rs1 := some v.2.1, imm := some v.2.2 }
  else { r with rd := some v.1, rs1 := some v.2.1, imm := some v.2.2 }

namespace Statement

open Operands

/-- Blanks around the operands are no part of them. -/
theorem split_trim {head : List Char} (token : Token head) {gap : Char}
    (blank : isBlank gap = true) (t : List Char) :
    split (trim (head ++ gap :: t)) = (head, trim t) := by
  rw [trim_append token.nonempty token.notBlank, trimEnd_cons, blank, Bool.and_true]
  cases rest : (trimEnd t).isEmpty with
  | true =>
    have nothing : trim t = [] := by
      rw [← trimStart_trimEnd, List.isEmpty_iff.mp rest]
      rfl
    rw [if_pos rfl, List.append_nil, split_token token, nothing]
  | false =>
    have first : cut isBlank (head ++ gap :: trimEnd t) = some (head, trimEnd t) :=
      cut_append token.notBlank blank _
    rw [if_neg Bool.false_ne_true]
    simp only [split, first, trim_trimEnd]

theorem readOperands_address {r : Record}
    (format : r.format = .il ∨ r.format = .jalr ∨ r.format = .s) (labels : LabelTable)
    (t : List Char) : readOperands labels r t =
      (addressParts r.opcode t >>= AddressParts.values).map r.withAddress := by
  have read (ps : AddressParts) (k : Byte → Byte → Word → Record) : (do
      let reg ← register ps.reg
      let base ← register ps.base
      let imm ← offset ps.offset
      return k reg base imm) = ps.values.map fun v => k v.1 v.2.1 v.2.2 := by
    unfold AddressParts.values
    cases register ps.reg with
    | error fault => rfl
    | ok reg =>
      cases register ps.base with
      | error fault => rfl
      | ok base => cases offset ps.offset <;> rfl
  cases taken : addressParts r.opcode t with
  | error fault => rcases format with h | h | h <;> simp only [readOperands, h, taken] <;> rfl
  | ok ps =>
    rcases format with h | h | h
    all_goals
      simp only [readOperands, h, taken, ok_bind, read]
      congr 1
      funext v
      simp [Record.withAddress, h]

end Statement

section

variable {m : Mnemonic} (format : m.format = .il ∨ m.format = .jalr ∨ m.format = .s)
  {head : List Char} (mnemonic : Mnemonic.ofText? head = some m) {gap : Char}
  (blank : isBlank gap = true)

/-- The record of a statement before its operands are known. -/
def bareStatement (m : Mnemonic) (slot number : Nat) (raw : List Char) : Record :=
  .bare m slot number (String.ofList (trim raw))

include format mnemonic blank in
/-- **A line with an address** has the record with its values, or their fault. -/
theorem assemble_address {t : List Char} (comment : '#' ∉ t) (colon : ':' ∉ t)
    (labels : LabelTable) (number slot : Nat) :
    (SourceLine.ofText number slot (head ++ gap :: t)).assemble labels =
      ((Operands.addressParts m (trim t) >>= Operands.AddressParts.values).map fun v =>
        some ((bareStatement m slot number (head ++ gap :: t)).withAddress v)).mapError
          (ParseError.mk number) := by
  have token := Operands.token_of_mnemonic mnemonic
  have absent {c : Char} (plain : isPlain c = false) (text : isBlank c = false) (h : c ∉ t) :
      c ∉ head ++ gap :: t := by
    rw [List.mem_append, List.mem_cons]
    rintro (mem | rfl | mem)
    · exact token.not_mem plain mem
    · cases text.symm.trans blank
    · exact h mem
  have line := SourceLine.ofText_of_uncommented
    (by rw [mem_trim (by decide)]; exact absent (by decide) (by decide) colon)
    (absent (by decide) (by decide) comment) number slot
  have nonempty : (trim (head ++ gap :: t)).isEmpty = false := by
    rw [trim_append token.nonempty token.notBlank]
    exact List.isEmpty_eq_false_iff.mpr (List.append_ne_nil_of_left_ne_nil token.nonempty _)
  have assembled : Statement.assemble labels slot number (trim (head ++ gap :: t)) =
      (Operands.addressParts m (trim t) >>= Operands.AddressParts.values).map
        (bareStatement m slot number (head ++ gap :: t)).withAddress := by
    simp only [Statement.assemble, Statement.split_trim token blank, mnemonic]
    exact Statement.readOperands_address format labels (trim t)
  have statement : (SourceLine.ofText number slot (head ++ gap :: t)).statement? labels =
      (Statement.assemble labels slot number (trim (head ++ gap :: t))).map some := by
    rw [line, SourceLine.statement?]
    exact if_neg (by rw [nonempty]; exact Bool.false_ne_true)
  have clean : (SourceLine.ofText number slot (head ++ gap :: t)).labelFault? labels = none := by
    rw [line]
    rfl
  rw [SourceLine.assemble, clean, statement, assembled]
  cases Operands.addressParts m (trim t) >>= Operands.AddressParts.values <;> rfl

include format mnemonic blank in
/-- **A line with an address assembles exactly if it is written in one of the two forms**, with
    parts that stand for something, and its record holds what they stand for. -/
theorem assemble_address_iff {t : List Char} (comment : '#' ∉ t) (colon : ':' ∉ t)
    (labels : LabelTable) (number slot : Nat) {result : Option Record} :
    (SourceLine.ofText number slot (head ++ gap :: t)).assemble labels = .ok result ↔
      ∃ ps reg base z, Operands.Written t ps ∧ ps.Means reg base z ∧
        result = some ((bareStatement m slot number (head ++ gap :: t)).withAddress
          (reg.toByte, base.toByte, BitVec.ofInt 32 z)) := by
  rw [assemble_address format mnemonic blank comment colon]
  constructor
  · intro assembled
    cases values : Operands.addressParts m (trim t) >>= Operands.AddressParts.values with
    | error fault =>
      rw [values] at assembled
      cases assembled
    | ok v =>
      obtain ⟨ps, reg, base, z, written, means, rfl⟩ := Operands.addressValues_iff.mp values
      rw [values] at assembled
      cases assembled
      exact ⟨ps, reg, base, z, written, means, rfl⟩
  · rintro ⟨ps, reg, base, z, written, means, rfl⟩
    have values := (@Operands.addressValues_iff m t _).mpr ⟨ps, reg, base, z, written, means, rfl⟩
    rw [values]
    rfl

include format mnemonic blank in
/-- A source of one such line assembles exactly if its operands are written in one of the two forms,
    with parts that stand for something. -/
theorem parse_address_iff {t : List Char} (comment : '#' ∉ t) (colon : ':' ∉ t)
    (line : '\n' ∉ gap :: t) :
    (∃ program, Program.parse (String.ofList (head ++ gap :: t)) = .ok program) ↔
      ∃ ps reg base z, Operands.Written t ps ∧ ps.Means reg base z := by
  have plain : '\n' ∉ head ++ gap :: t := fun mem => (List.mem_append.mp mem).elim
    ((Operands.token_of_mnemonic mnemonic).not_mem (by decide)) line
  have whole : SourceLine.all (head ++ gap :: t) = [SourceLine.ofText 1 0 (head ++ gap :: t)] := by
    rw [SourceLine.all, lines_of_not_mem plain]
    rfl
  have assembles := @assemble_address_iff m format head mnemonic gap blank t comment colon
  rw [Program.parse, String.toList_ofList]
  constructor
  · rintro ⟨program, assembled⟩
    obtain ⟨results, each, -⟩ := Program.assemble_eq_ok_iff.mp assembled
    rw [whole] at each
    cases results with
    | nil => cases each
    | cons result results =>
      obtain ⟨here, -⟩ := List.cons.inj each
      obtain ⟨ps, reg, base, z, written, means, -⟩ := (assembles _ 1 0).mp here
      exact ⟨ps, reg, base, z, written, means⟩
  · rintro ⟨ps, reg, base, z, written, means⟩
    have here := (assembles (.ofLines (SourceLine.all (head ++ gap :: t))) 1 0).mpr
      ⟨ps, reg, base, z, written, means, rfl⟩
    have each : (SourceLine.all (head ++ gap :: t)).map
        (SourceLine.assemble (.ofLines (SourceLine.all (head ++ gap :: t)))) =
          [some ((bareStatement m 0 1 (head ++ gap :: t)).withAddress
            (reg.toByte, base.toByte, BitVec.ofInt 32 z))].map .ok := by
      rw [whole] at here ⊢
      exact congrArg (· :: []) here
    exact ⟨_, Program.assemble_eq_ok_iff.mpr ⟨_, each, rfl⟩⟩

end

/-! ## 5. Both forms -/

/-- The record without the text of its statement. -/
def Record.sourceless (r : Record) : Record :=
  { r with source := "" }

/-- What a line comes to, but for the text of its statement. -/
def outcome (labels : LabelTable) (number slot : Nat) (raw : List Char) :
    Except ParseError (Option Record) :=
  ((SourceLine.ofText number slot raw).assemble labels).map (Option.map Record.sourceless)

namespace Operands

/-- A part that neither starts a comment nor ends a label. -/
structure Inert (cs : List Char) : Prop extends Part cs where
  comment : '#' ∉ cs
  colon : ':' ∉ cs

section

variable {a b z : List Char} (ha : Part a) (hb : Part b)

include ha hb in
theorem addressParts_three (hz : Part z) (opcode : Mnemonic) :
    addressParts opcode (trim (three a b z)) = .ok ⟨a, b, some z⟩ := by
  have absent : '(' ∉ three a b z := by
    simp [three, two, ha.not_mem (by decide : isSeparator '(' = true),
      hb.not_mem (by decide : isSeparator '(' = true),
      hz.not_mem (by decide : isSeparator '(' = true)]
  have three := threeParts_eq_ok_iff.mp (threeParts_listed ha hb hz opcode)
  exact addressParts_of_three absent three opcode

include ha hb in
theorem addressParts_based (hz : z = [] ∨ Part z) (opcode : Mnemonic) :
    addressParts opcode (trim (based a z b)) = .ok ⟨a, b, given z⟩ :=
  addressParts_comma (ha.not_mem (by decide)) (by simp) (bracketed?_listed ha hb hz) opcode

end

end Operands

section

variable {m : Mnemonic} (format : m.format = .il ∨ m.format = .jalr ∨ m.format = .s)
  {head : List Char} (mnemonic : Mnemonic.ofText? head = some m) {gap : Char}
  (blank : isBlank gap = true)

include format mnemonic blank in
/-- The outcome of a line is decided by the values of its operands. -/
theorem outcome_address {t : List Char} (comment : '#' ∉ t) (colon : ':' ∉ t)
    (labels : LabelTable) (number slot : Nat) :
    outcome labels number slot (head ++ gap :: t) =
      ((Operands.addressParts m (trim t) >>= Operands.AddressParts.values).map fun v =>
        some ((Record.bare m slot number "").withAddress v)).mapError (ParseError.mk number) := by
  rw [outcome, assemble_address format mnemonic blank comment colon]
  cases Operands.addressParts m (trim t) >>= Operands.AddressParts.values with
  | error fault => rfl
  | ok v =>
    have same : ((bareStatement m slot number (head ++ gap :: t)).withAddress v).sourceless =
        (Record.bare m slot number "").withAddress v := by
      unfold Record.withAddress
      show (if m.format = .s then _ else _ : Record).sourceless = if m.format = .s then _ else _
      split <;> rfl
    exact congrArg (fun r => Except.ok (some r)) same

open Operands in
include format mnemonic blank in
/-- **Both forms of an address come to the same**, whether their parts stand for something or
    not, and an offset that is left out is a zero. -/
theorem outcome_forms {a b z : List Char} (ha : Inert a) (hb : Inert b) (hz : Inert z)
    (labels : LabelTable) (number slot : Nat) :
    outcome labels number slot (head ++ gap :: three a b z) =
        outcome labels number slot (head ++ gap :: based a z b) ∧
      outcome labels number slot (head ++ gap :: based a [] b) =
        outcome labels number slot (head ++ gap :: three a b ['0']) := by
  have absent {c : Char} (outside : c ≠ ',' ∧ c ≠ ' ' ∧ c ≠ '(' ∧ c ≠ ')') {x y w : List Char}
      (hx : c ∉ x) (hy : c ∉ y) (hw : c ∉ w) : c ∉ three x y w ∧ c ∉ based x w y := by
    simp [three, two, based, hx, hy, hw, outside]
  have zero : Part ['0'] := ⟨List.cons_ne_nil _ _, List.forall_mem_singleton.mpr (by decide)⟩
  have comments := absent (by decide) ha.comment hb.comment hz.comment
  have colons := absent (by decide) ha.colon hb.colon hz.colon
  have comments' := absent (by decide) ha.comment hb.comment (List.not_mem_nil)
  have colons' := absent (by decide) ha.colon hb.colon (List.not_mem_nil)
  have comments₀ := absent (by decide) ha.comment hb.comment (by decide : '#' ∉ ['0'])
  have colons₀ := absent (by decide) ha.colon hb.colon (by decide : ':' ∉ ['0'])
  have decided := @outcome_address m format head mnemonic gap blank
  rw [decided comments.1 colons.1, decided comments.2 colons.2, decided comments'.2 colons'.2,
    decided comments₀.1 colons₀.1, addressParts_three ha.toPart hb.toPart hz.toPart,
    addressParts_based ha.toPart hb.toPart (.inr hz.toPart), given_of_part hz.toPart,
    addressParts_based ha.toPart hb.toPart (.inl rfl),
    addressParts_three ha.toPart hb.toPart zero]
  have same : (AddressParts.mk a b (given [])).values =
      (AddressParts.mk a b (some ['0'])).values := rfl
  exact ⟨rfl, congrArg (fun v => (Except.map _ v).mapError _) same⟩

open Operands in
include format mnemonic blank in
/-- **The operands of loads, stores and register jumps.**
    * A line assembles exactly if its operands are written in one of the two forms, with parts that
      stand for two registers and an offset from -2048 to 2047; its record holds these.
    * So does a source that has no other line.
    * For parts without separators both forms come to the same, record or error. -/
theorem address_operands :
    (∀ t, '#' ∉ t → ':' ∉ t → ∀ labels number slot result,
      (SourceLine.ofText number slot (head ++ gap :: t)).assemble labels = .ok result ↔
        ∃ ps reg base z, Written t ps ∧ ps.Means reg base z ∧
          result = some ((bareStatement m slot number (head ++ gap :: t)).withAddress
            (reg.toByte, base.toByte, BitVec.ofInt 32 z))) ∧
    (∀ t, '#' ∉ t → ':' ∉ t → '\n' ∉ gap :: t →
      ((∃ program, Program.parse (String.ofList (head ++ gap :: t)) = .ok program) ↔
        ∃ ps reg base z, Written t ps ∧ ps.Means reg base z)) ∧
    ∀ a b z, Inert a → Inert b → Inert z → ∀ labels number slot,
      outcome labels number slot (head ++ gap :: three a b z) =
          outcome labels number slot (head ++ gap :: based a z b) ∧
        outcome labels number slot (head ++ gap :: based a [] b) =
          outcome labels number slot (head ++ gap :: three a b ['0']) :=
  ⟨fun _ comment colon labels number slot _ =>
      assemble_address_iff format mnemonic blank comment colon labels number slot,
    fun _ comment colon line => parse_address_iff format mnemonic blank comment colon line,
    fun _ _ _ ha hb hz labels number slot =>
      outcome_forms format mnemonic blank ha hb hz labels number slot⟩

end

open Operands in
/-- A load with blanks around all parts, and two with a base that is no register. -/
theorem address_operands_load :
    (∃ program, Program.parse "LW\t x5 , -8 ( sp ) " = .ok program) ∧
    outcome {} 1 0 "LW\tx5, 4(x99)".toList = outcome {} 1 0 "LW\tx5, x99, 4".toList ∧
    outcome {} 1 0 "LW\tx5, 4(x99)".toList = .error ⟨1, .invalidRegister "x99"⟩ := by
  obtain ⟨-, accepted, forms⟩ := @address_operands .lw (.inl rfl) "LW".toList (by decide) '\t'
    (by decide)
  have written : Written " x5 , -8 ( sp ) ".toList ⟨"x5".toList, "sp".toList, some "-8".toList⟩ :=
    @Written.bracketed [' '] "x5".toList [' '] [' '] [' '] [' '] "sp".toList [' '] [' ']
      (some "-8".toList) (by decide +kernel)
  have means : AddressParts.Means ⟨"x5".toList, "sp".toList, some "-8".toList⟩ 5 2 (-8) :=
    ⟨by decide, by decide, by show literal? _ = _; decide, by decide⟩
  have part {cs : List Char} (h : cs ≠ [] ∧ (cs.all fun c => !isSeparator c) = true ∧
      '#' ∉ cs ∧ ':' ∉ cs) : Inert cs :=
    ⟨⟨h.1, fun c mem => by simpa using List.all_eq_true.mp h.2.1 c mem⟩, h.2.2.1, h.2.2.2⟩
  refine ⟨?_, ?_, ?_⟩
  · exact (accepted _ (by decide) (by decide) (by decide)).mpr ⟨_, 5, 2, -8, written, means⟩
  · exact (forms "x5".toList "x99".toList "4".toList (part (by decide)) (part (by decide))
      (part (by decide)) {} 1 0).1.symm
  · exact eq_error_of_errorOf? (by decide +kernel)

end Rv32i
