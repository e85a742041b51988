import Rv32i.Assembly.Operand
import Rv32i.Isa.Instruction
import Rv32i.Proofs.Isa.RegisterNames
import Rv32i.Proofs.Text.Blanks
import Rv32i.Proofs.Text.Cutting
import Rv32i.Proofs.Text.Numerals

/-!
# Operands read back

Listings write operands in three forms: `a, b` and `a, b, c` and `a, z(b)`. Where the operands have
no separators, each form comes apart into them (`twoParts_listed`, `threeParts_listed`,
`addressParts_listed`), and registers and immediates in canonical spelling have the values they
were written from. `bracketed?_eq_some_iff` says what other texts come apart into a register, an
offset and a base.
-/

namespace Rv32i

open Text

namespace Operands

/-! ## 1. Forms of an operand text -/

/-- Two operands as they are listed. -/
def two (a b : List Char) : List Char :=
  a ++ ',' :: ' ' :: b

/-- Three operands as they are listed. -/
def three (a b c : List Char) : List Char :=
  a ++ ',' :: ' ' :: two b c

/-- A register and an address as they are listed. -/
def based (a z b : List Char) : List Char :=
  a ++ ',' :: ' ' :: (z ++ '(' :: (b ++ [')']))

/-- A text that is not empty and has no separators. -/
structure Part (cs : List Char) : Prop where
  nonempty : cs ≠ []
  apart : ∀ c ∈ cs, isSeparator c = false

theorem Part.not_mem {cs : List Char} (h : Part cs) {c : Char} (hc : isSeparator c = true) :
    c ∉ cs := by
  intro mem
  rw [h.apart c mem] at hc
  cases hc

theorem Part.ne {cs : List Char} (h : Part cs) {c d : Char} (mem : d ∈ cs)
    (hc : isSeparator c = true) : d ≠ c :=
  fun e => h.not_mem hc (e ▸ mem)

theorem isSeparator_of_isBlank {c : Char} (h : isBlank c = true) : isSeparator c = true := by
  rw [isSeparator, h, Bool.or_true]

theorem Part.notBlank {cs : List Char} (h : Part cs) : ∀ c ∈ cs, isBlank c = false :=
  fun _ mem => Bool.eq_false_iff.mpr fun blank => h.not_mem (isSeparator_of_isBlank blank) mem

theorem Part.trim_eq {cs : List Char} (h : Part cs) : trim cs = cs :=
  trim_eq_self (fun c mem => h.notBlank c (List.mem_of_head? mem))
    fun c mem => h.notBlank c (List.mem_of_getLast? mem)

theorem isSeparator_of_isPlain {c : Char} (h : isPlain c = true) : isSeparator c = false := by
  have ne {d : Char} (hd : isPlain d = false) : (c = d) = False := by
    refine eq_false fun e => ?_
    rw [← e, h] at hd
    cases hd
  simp only [isSeparator, isBlank_of_isPlain h, ne (by decide : isPlain ',' = false),
    ne (by decide : isPlain '(' = false), ne (by decide : isPlain ')' = false), decide_false,
    Bool.or_false]

theorem part_of_token {cs : List Char} (h : Token cs) : Part cs :=
  ⟨h.nonempty, fun c mem => isSeparator_of_isPlain (h.plain c mem)⟩

/-- The offset that a text before a parenthesis gives. -/
def given (text : List Char) : Option (List Char) :=
  if text.isEmpty then none else some text

theorem given_of_part {cs : List Char} (h : Part cs) : given cs = some cs := by
  rw [given, List.isEmpty_eq_false_iff.mpr h.nonempty]
  rfl

/-- Register, base and offset are those of an address in brackets: there is a register and a base,
    and no comma and no other parenthesis. -/
structure Bracketed (reg base offset : List Char) : Prop where
  named : reg ≠ []
  based : base ≠ []
  basePlain : ∀ c ∈ base, c ≠ '(' ∧ c ≠ ')' ∧ c ≠ ','
  offsetPlain : ∀ c ∈ offset, c ≠ ')' ∧ c ≠ ','

theorem Bracketed.of_parts {reg base offset : List Char} (hr : Part reg) (hb : Part base)
    (apart : ∀ c, isSeparator c = true → c ∉ offset) : Bracketed reg base offset where
  named := hr.nonempty
  based := hb.nonempty
  basePlain _ mem := ⟨hb.ne mem (by decide), hb.ne mem (by decide), hb.ne mem (by decide)⟩
  offsetPlain _ mem := ⟨fun e => apart ')' (by decide) (e ▸ mem),
    fun e => apart ',' (by decide) (e ▸ mem)⟩

theorem bracketed?_of_cut {x y z inner : List Char} {last : Char}
    (first : cut (· = '(') (trim y) = some (z, inner ++ [last])) {ps : AddressParts} :
    bracketed? x y = some ps ↔ last = ')' ∧ Bracketed (trim x) (trim inner) (trim z) ∧
      ps = ⟨trim x, trim inner, given (trim z)⟩ := by
  simp only [bracketed?, given, first, Option.bind_eq_bind, Option.bind_some, List.getLast?_concat,
    List.dropLast_concat, Option.ite_none_left_eq_some, Bool.or_eq_true, not_or,
    List.isEmpty_iff, decide_eq_true_eq, Decidable.not_not, List.any_eq_true, not_exists, not_and]
  constructor
  · rintro ⟨⟨⟨⟨⟨named, closes⟩, based⟩, base⟩, offset⟩, eq⟩
    refine ⟨closes, ⟨named, based, fun c mem => ?_, offset⟩,
      (Option.some.inj eq).symm⟩
    exact ⟨(base c mem).1.1, (base c mem).1.2, (base c mem).2⟩
  · rintro ⟨rfl, clean, rfl⟩
    refine ⟨⟨⟨⟨⟨clean.named, rfl⟩, clean.based⟩, fun c mem => ?_⟩,
      clean.offsetPlain⟩, rfl⟩
    obtain ⟨opening, closing, comma⟩ := clean.basePlain c mem
    exact ⟨⟨opening, closing⟩, comma⟩

/-- **What comes apart into a register and an address in brackets**: the address ends with a
    parenthesis, and the base is what stands between that and the first one. -/
theorem bracketed?_eq_some_iff {x y : List Char} {ps : AddressParts} :
    bracketed? x y = some ps ↔ ∃ z inner after,
      y = z ++ '(' :: (inner ++ ')' :: after) ∧ Blank after ∧ '(' ∉ z ∧
      Bracketed (trim x) (trim inner) (trim z) ∧
      ps = ⟨trim x, trim inner, given (trim z)⟩ := by
  constructor
  · intro h
    cases first : cut (· = '(') (trim y) with
    | none => simp [bracketed?, first] at h
    | some pieces =>
      obtain ⟨z, rest⟩ := pieces
      rcases List.eq_nil_or_concat rest with rfl | ⟨inner, last, eq⟩
      · simp [bracketed?, first] at h
      · rw [eq, List.concat_eq_append] at first
        obtain ⟨rfl, clean, rfl⟩ := (bracketed?_of_cut first).mp h
        obtain ⟨before, after, hb, ha, whole⟩ := exists_trim y
        obtain ⟨paren, isParen, inside⟩ := eq_of_cut first
        have front := trim_blanks hb .nil z
        rw [List.append_nil] at front
        rw [← front] at clean ⊢
        refine ⟨before ++ z, inner, after, ?_, ha, ?_, clean, rfl⟩
        · rw [whole, inside, of_decide_eq_true isParen]
          simp
        · rw [List.mem_append]
          rintro (mem | mem)
          · exact hb.not_mem (by decide) mem
          · exact of_decide_eq_false (plain_of_cut first _ mem) rfl
  · rintro ⟨z, inner, after, rfl, blank, paren, clean, rfl⟩
    have front : ∀ c ∈ trimStart z, decide (c = '(') = false := fun c mem =>
      decide_eq_false fun e => paren ((List.dropWhile_sublist isBlank).mem (e ▸ mem))
    have first : cut (· = '(') (trim (z ++ '(' :: (inner ++ ')' :: after))) =
        some (trimStart z, inner ++ [')']) := by
      rw [trim_append_cons (by decide), trimEnd_append_cons (by decide), trimEnd_of_blank blank]
      exact cut_append front (by decide) _
    rw [bracketed?_of_cut first, trim_trimStart]
    exact ⟨rfl, clean, rfl⟩

section

variable {a b c z : List Char} (ha : Part a) (hb : Part b) (hc : Part c) (hz : Part z)

include ha in
theorem parts_one : parts a = [a] :=
  words_of_plain ha.nonempty ha.apart

include ha in
/-- The comma and the blank behind a part belong to no part. -/
theorem parts_comma (rest : List Char) : parts (a ++ ',' :: ' ' :: rest) = a :: parts rest := by
  rw [parts, words_append ha.nonempty ha.apart (by decide), words_cons_sep (by decide)]
  rfl

include ha hb in
theorem twoParts_listed (opcode : Mnemonic) : twoParts opcode (two a b) = .ok (a, b) := by
  rw [twoParts, two, parts_comma ha, parts_one hb]

include ha hb hc in
theorem threeParts_listed (opcode : Mnemonic) :
    threeParts opcode (three a b c) = .ok (a, b, c) := by
  rw [threeParts, three, parts_comma ha, two, parts_comma hb, parts_one hc]

include ha hb in
theorem bracketed?_listed (offset : z = [] ∨ Part z) :
    bracketed? a (' ' :: (z ++ '(' :: (b ++ [')']))) = some ⟨a, b, given z⟩ := by
  have trimmed : trim z = z := by
    rcases offset with rfl | hz
    · rfl
    · exact hz.trim_eq
  have inside : ∀ c, isSeparator c = true → c ∉ z := by
    rcases offset with rfl | hz
    · exact fun c _ => List.not_mem_nil
    · exact fun c => hz.not_mem
  have front : trim (' ' :: z) = z := by
    have same := trim_blanks (List.forall_mem_singleton.mpr isBlank_space) .nil z
    rw [List.append_nil, trimmed] at same
    exact same
  refine bracketed?_eq_some_iff.mpr ⟨' ' :: z, b, [], rfl, .nil, ?_, ?_⟩
  · rw [List.mem_cons]
    exact fun mem => mem.elim (by decide) (inside '(' (by decide))
  · rw [front, ha.trim_eq, hb.trim_eq]
    exact ⟨.of_parts ha hb inside, rfl⟩

include ha hb in
/-- **An address comes apart** into its register, its offset and its base. -/
theorem addressParts_listed (offset : z = [] ∨ Part z) (opcode : Mnemonic) :
    addressParts opcode (based a z b) = .ok ⟨a, b, given z⟩ := by
  have paren : (based a z b).contains '(' = true := by
    rw [List.contains_iff_mem]
    simp [based]
  have comma : ∀ d ∈ a, decide (d = ',') = false := fun d mem =>
    decide_eq_false (ha.ne mem (by decide))
  have first : cut (· = ',') (based a z b) = some (a, ' ' :: (z ++ '(' :: (b ++ [')']))) :=
    cut_append comma (by decide) _
  rw [addressParts, if_pos paren, first]
  simp only [bracketed?_listed ha hb offset]

end

/-! ## 2. Registers and immediates -/

/-- A register reads back from its number. -/
theorem register_number (r : Reg) : register (Reg.number r).toList = .ok r.toByte := by
  rw [register, Reg.ofText?_of_mem_spellings (Reg.number_mem_spellings r)]

theorem register_eq_ok_iff {part : List Char} {b : Byte} :
    register part = .ok b ↔ ∃ r, Reg.ofText? part = some r ∧ b = r.toByte := by
  unfold register
  cases Reg.ofText? part with
  | none => exact ⟨nofun, fun ⟨_, named, _⟩ => nomatch named⟩
  | some r =>
    constructor
    · intro h
      cases h
      exact ⟨r, rfl, rfl⟩
    · rintro ⟨_, named, rfl⟩
      cases named
      rfl

theorem fit_eq_ok_iff {field : Field} {z : Int} {w : Word} :
    fit field z = .ok w ↔ field.admits z = true ∧ w = BitVec.ofInt 32 z := by
  unfold fit
  split
  · rename_i fits
    exact ⟨fun h => ⟨fits, (Except.ok.inj h).symm⟩, fun h => congrArg Except.ok h.2.symm⟩
  · rename_i outside
    refine ⟨fun h => ?_, fun h => absurd h.1 outside⟩
    cases h

theorem fit_toInt {field : Field} {w : Word} (h : field.admits w.toInt = true) :
    fit field w.toInt = .ok w := by
  rw [fit, if_pos h, BitVec.ofInt_toInt]

theorem literal?_toInt (w : Word) : literal? (signed w.toInt).toList = some w.toInt := by
  refine literal?_signed ?_
  have := w.isLt
  have := BitVec.toInt_eq_toNat_cond w
  unfold maxMagnitude
  omega

theorem immediate_signed {field : Field} {w : Word} (h : field.admits w.toInt = true) :
    immediate field (signed w.toInt).toList = .ok w := by
  rw [immediate, literal?_toInt]
  exact fit_toInt h

/-- A literal target needs no label. -/
theorem target_signed (labels : LabelTable) (slot : Nat) {field : Field} {w : Word}
    (h : field.admits w.toInt = true) :
    target labels slot field (signed w.toInt).toList = .ok (w, none) := by
  rw [target, literal?_toInt]
  show (fit field w.toInt >>= fun imm => pure (imm, none)) = _
  rw [fit_toInt h]
  rfl

theorem immediate_hex {n : Nat} (h : n < 2 ^ 20) :
    immediate .upper ("0x" ++ hex n).toList = .ok (BitVec.ofNat 32 n) := by
  have bound : n ≤ maxMagnitude := by
    unfold maxMagnitude
    omega
  have admits : Field.upper.admits (n : Int) = true := by
    rw [Field.admits_iff]
    show (-2 ^ 19 : Int) ≤ n ∧ (n : Int) ≤ 2 ^ 20 - 1
    omega
  rw [immediate, literal?_hex bound]
  show fit .upper (n : Int) = _
  rw [fit, if_pos admits]
  rfl

theorem immediate_decimal {n : Nat} (h : n < 2 ^ 11) :
    immediate (.signed 12) (decimal n).toList = .ok (BitVec.ofNat 32 n) := by
  have bound : n ≤ maxMagnitude := by
    unfold maxMagnitude
    omega
  have admits : (Field.signed 12).admits (n : Int) = true := by
    rw [Field.admits_iff]
    show (-2 ^ 11 : Int) ≤ n ∧ (n : Int) ≤ 2 ^ 11 - 1
    omega
  rw [immediate, literal?_decimal bound]
  show fit (.signed 12) (n : Int) = _
  rw [fit, if_pos admits]
  rfl

end Operands

end Rv32i
