import Mathlib.Data.Nat.Digits.Defs
import Rv32i.Assembly.Operand
import Rv32i.Proofs.Text.Numerals

/-!
# Which texts are literals

The form of a literal, said without reading it: `IsDigit` is a digit of a base in either case,
`Magnitude` a radix mark with digits behind it, `LiteralForm` a magnitude with a sign or without.

* `natOfDigits?_eq_some_iff`: digits are read as the number they stand for by place;
* `boundedMagnitude?_eq_some_iff`, `literal?_eq_some_iff`: what is read is what has the form;
* `literal?_of_identifier`: no name of a label has it.

The main statement is `literal_grammar`.
-/

namespace Rv32i

open Text

/-! ## 1. Digits -/

/-- The character spells a digit. The letters may be of either case. -/
def Spells (c : Char) (d : Nat) : Prop :=
  c = d.digitChar ∨ c = d.digitChar.toUpper

instance (c : Char) (d : Nat) : Decidable (Spells c d) :=
  inferInstanceAs (Decidable (_ ∨ _))

/-- The character stands for a digit of the base. -/
def IsDigit (base : Nat) (c : Char) (d : Nat) : Prop :=
  d < base ∧ Spells c d

/-- Where a range of characters spells digits from one on, so does each of its characters. -/
theorem spells_of_range {lo hi c : Char} {first d : Nat} (range : lo ≤ c ∧ c ≤ hi)
    (place : d + lo.toNat = first + c.toNat)
    (spells : ∀ k ≤ hi.toNat - lo.toNat,
      first + k < 16 ∧ Spells (.ofNat (lo.toNat + k)) (first + k)) :
    d < 16 ∧ Spells c d := by
  have low : lo.toNat ≤ c.toNat := UInt32.le_iff_toNat_le.mp range.1
  have high : c.toNat ≤ hi.toNat := UInt32.le_iff_toNat_le.mp range.2
  have here := spells (c.toNat - lo.toNat) (by omega)
  have code : lo.toNat + (c.toNat - lo.toNat) = c.toNat := by omega
  have digit : first + (c.toNat - lo.toNat) = d := by omega
  rwa [code, digit, Char.ofNat_toNat] at here

/-- **The characters that have a value** are those that spell one of the sixteen digits. -/
theorem digitValue_eq_some_iff {c : Char} {d : Nat} :
    digitValue c = some d ↔ d < 16 ∧ Spells c d := by
  constructor
  · intro h
    unfold digitValue at h
    split at h
    · rename_i decimal
      have low : 48 ≤ c.toNat := UInt32.le_iff_toNat_le.mp decimal.1
      have value := Option.some.inj h
      have place : d + 48 = 0 + c.toNat := by omega
      exact spells_of_range decimal place (by decide)
    · split at h
      · rename_i lower
        have low : 97 ≤ c.toNat := UInt32.le_iff_toNat_le.mp lower.1
        have value := Option.some.inj h
        have place : d + 97 = 10 + c.toNat := by omega
        exact spells_of_range lower place (by decide)
      · split at h
        · rename_i upper
          have low : 65 ≤ c.toNat := UInt32.le_iff_toNat_le.mp upper.1
          have value := Option.some.inj h
          have place : d + 65 = 10 + c.toNat := by omega
          exact spells_of_range upper place (by decide)
        · cases h
  · rintro ⟨lt, rfl | rfl⟩
    · have value : ∀ d : Fin 16, digitValue d.val.digitChar = some d.val := by decide
      exact value ⟨d, lt⟩
    · have value : ∀ d : Fin 16, digitValue d.val.digitChar.toUpper = some d.val := by decide
      exact value ⟨d, lt⟩

theorem digit?_eq_some_iff {base : Nat} (le : base ≤ 16) {c : Char} {d : Nat} :
    digit? base c = some d ↔ IsDigit base c d := by
  rw [digit?, Option.filter_eq_some_iff, digitValue_eq_some_iff, decide_eq_true_iff]
  constructor
  · rintro ⟨⟨_, spelled⟩, lt⟩
    exact ⟨lt, spelled⟩
  · rintro ⟨lt, spelled⟩
    exact ⟨⟨Nat.lt_of_lt_of_le lt le, spelled⟩, lt⟩

/-- Digits are read behind a number that has been read. -/
theorem foldlM_digit?_eq_some_iff {base : Nat} (le : base ≤ 16) {cs : List Char} {start n : Nat} :
    cs.foldlM (fun n c => (digit? base c).map (n * base + ·)) start = some n ↔
      ∃ ds, List.Forall₂ (IsDigit base) cs ds ∧ n = Nat.ofDigits base (ds.reverse ++ [start]) := by
  induction cs generalizing start with
  | nil =>
    constructor
    · rintro ⟨⟩
      exact ⟨[], .nil, by simp⟩
    · rintro ⟨ds, same, rfl⟩
      cases same
      simp
  | cons c cs ih =>
    rw [List.foldlM_cons]
    constructor
    · intro h
      obtain ⟨next, step, later⟩ := Option.bind_eq_some_iff.mp h
      obtain ⟨d, digit, rfl⟩ := Option.map_eq_some_iff.mp step
      obtain ⟨ds, digits, rfl⟩ := ih.mp later
      refine ⟨d :: ds, .cons ((digit?_eq_some_iff le).mp digit) digits, ?_⟩
      simp [Nat.ofDigits_append, Nat.ofDigits_cons, Nat.mul_comm, Nat.add_comm]
    · rintro ⟨ds, digits, rfl⟩
      cases digits with
      | cons digit digits =>
        rename_i d ds
        rw [(digit?_eq_some_iff le).mpr digit]
        refine ih.mpr ⟨ds, digits, ?_⟩
        simp [Nat.ofDigits_append, Nat.ofDigits_cons, Nat.mul_comm, Nat.add_comm]

/-- **Digits are read as the number they stand for**, each by its place. -/
theorem natOfDigits?_eq_some_iff {base : Nat} (le : base ≤ 16) {cs : List Char} {n : Nat} :
    natOfDigits? base cs = some n ↔
      cs ≠ [] ∧ ∃ ds, List.Forall₂ (IsDigit base) cs ds ∧ n = Nat.ofDigits base ds.reverse := by
  unfold natOfDigits?
  cases cs with
  | nil => simp
  | cons c cs =>
    simp only [List.isEmpty_cons, Bool.false_eq_true, if_false, foldlM_digit?_eq_some_iff le,
      Nat.ofDigits_append_zero]
    simp

/-! ## 2. Magnitudes -/

/-- The radix marks, each with the base of the digits behind it. Decimal digits have none. -/
def radixMarks : List (List Char × Nat) :=
  [(['0', 'x'], 16), (['0', 'X'], 16), (['0', 'b'], 2), (['0', 'B'], 2), ([], 10)]

/-- The text is a radix mark with at least one digit of its base behind it, and writes the
    number. -/
def Magnitude (cs : List Char) (n : Nat) : Prop :=
  ∃ mark base digits ds, (mark, base) ∈ radixMarks ∧ cs = mark ++ digits ∧ digits ≠ [] ∧
    List.Forall₂ (IsDigit base) digits ds ∧ n = Nat.ofDigits base ds.reverse

theorem isDigit_of_decimal {c : Char} {d : Nat} (h : IsDigit 10 c d) : c.isDigit = true := by
  have digits : ∀ d : Fin 10, d.val.digitChar.isDigit = true ∧
    d.val.digitChar.toUpper.isDigit = true := by decide
  obtain ⟨lt, rfl | rfl⟩ := h
  · exact (digits ⟨d, lt⟩).1
  · exact (digits ⟨d, lt⟩).2

theorem forall_isDigit {cs : List Char} {ds : List Nat} (h : List.Forall₂ (IsDigit 10) cs ds) :
    ∀ c ∈ cs, c.isDigit = true := by
  induction h with
  | nil => exact List.forall_mem_nil _
  | cons digit _ ih => exact List.forall_mem_cons.mpr ⟨isDigit_of_decimal digit, ih⟩

/-- **The magnitudes are what is read as one.** -/
theorem magnitude?_eq_some_iff {cs : List Char} {n : Nat} :
    magnitude? cs = some n ↔ Magnitude cs n := by
  constructor
  · intro h
    unfold magnitude? at h
    split at h
    all_goals obtain ⟨nonempty, ds, digits, value⟩ := (natOfDigits?_eq_some_iff (by decide)).mp h
    · exact ⟨['0', 'x'], 16, _, ds, by decide, rfl, nonempty, digits, value⟩
    · exact ⟨['0', 'X'], 16, _, ds, by decide, rfl, nonempty, digits, value⟩
    · exact ⟨['0', 'b'], 2, _, ds, by decide, rfl, nonempty, digits, value⟩
    · exact ⟨['0', 'B'], 2, _, ds, by decide, rfl, nonempty, digits, value⟩
    · exact ⟨[], 10, _, ds, by decide, rfl, nonempty, digits, value⟩
  · rintro ⟨mark, base, digits, ds, listed, rfl, nonempty, spelled, rfl⟩
    have bases : ∀ entry ∈ radixMarks, entry.2 ≤ 16 := by decide
    have read := (natOfDigits?_eq_some_iff (bases _ listed)).mpr ⟨nonempty, ds, spelled, rfl⟩
    simp only [radixMarks, List.mem_cons, Prod.mk.injEq, List.not_mem_nil, or_false] at listed
    rcases listed with ⟨rfl, rfl⟩ | ⟨rfl, rfl⟩ | ⟨rfl, rfl⟩ | ⟨rfl, rfl⟩ | ⟨rfl, rfl⟩
    · exact read
    · exact read
    · exact read
    · exact read
    · exact (magnitude?_of_digits (forall_isDigit spelled)).trans read

/-- A magnitude starts with a decimal digit, whatever its base. -/
theorem Magnitude.starts {cs : List Char} {n : Nat} (h : Magnitude cs n) :
    ∃ c rest, cs = c :: rest ∧ c.isDigit = true := by
  obtain ⟨mark, base, digits, ds, listed, rfl, nonempty, spelled, -⟩ := h
  have marks : ∀ entry ∈ radixMarks, entry = ([], 10) ∨ entry.1.head? = some '0' := by decide
  rcases marks _ listed with decimal | marked
  · cases decimal
    obtain ⟨c, rest, rfl⟩ := List.exists_cons_of_ne_nil nonempty
    exact ⟨c, rest, rfl, forall_isDigit spelled c List.mem_cons_self⟩
  · obtain ⟨rest, rfl⟩ := List.head?_eq_some_iff.mp marked
    exact ⟨'0', rest ++ digits, rfl, by decide⟩

theorem boundedMagnitude?_eq_some_iff {cs : List Char} {n : Nat} :
    boundedMagnitude? cs = some n ↔ Magnitude cs n ∧ n ≤ 2 ^ 63 - 1 := by
  rw [boundedMagnitude?, Option.filter_eq_some_iff, magnitude?_eq_some_iff, decide_eq_true_iff]
  rfl

/-! ## 3. Literals -/

/-- The text is a magnitude of at most `2 ^ 63 - 1`, with a sign or without one, and writes the
    integer. -/
inductive LiteralForm : List Char → Int → Prop
  | unsigned {body : List Char} {n : Nat} (magnitude : Magnitude body n) (le : n ≤ 2 ^ 63 - 1) :
    LiteralForm body n
  | plus {body : List Char} {n : Nat} (magnitude : Magnitude body n) (le : n ≤ 2 ^ 63 - 1) :
    LiteralForm ('+' :: body) n
  | minus {body : List Char} {n : Nat} (magnitude : Magnitude body n) (le : n ≤ 2 ^ 63 - 1) :
    LiteralForm ('-' :: body) (-n)

/-- **What is read is what has the form**, with the blanks around it removed. -/
theorem literal?_eq_some_iff {cs : List Char} {v : Int} :
    literal? cs = some v ↔ LiteralForm (trim cs) v := by
  unfold literal?
  constructor
  · intro h
    split at h
    all_goals obtain ⟨n, magnitude, rfl⟩ := Option.map_eq_some_iff.mp h
    all_goals obtain ⟨form, le⟩ := boundedMagnitude?_eq_some_iff.mp magnitude
    · rename_i eq
      rw [eq]
      exact .minus form le
    · rename_i eq
      rw [eq]
      exact .plus form le
    · exact .unsigned form le
  · generalize trim cs = text
    intro form
    cases form with
    | unsigned magnitude le =>
      obtain ⟨c, rest, rfl, digit⟩ := magnitude.starts
      have read := boundedMagnitude?_eq_some_iff.mpr ⟨magnitude, le⟩
      split
      · rename_i eq
        cases eq
        cases digit
      · rename_i eq
        cases eq
        cases digit
      · rw [read]
        rfl
    | plus magnitude le =>
      show (boundedMagnitude? _).map _ = _
      rw [boundedMagnitude?_eq_some_iff.mpr ⟨magnitude, le⟩]
      rfl
    | minus magnitude le =>
      show (boundedMagnitude? _).map _ = _
      rw [boundedMagnitude?_eq_some_iff.mpr ⟨magnitude, le⟩]
      rfl

/-- A literal has no blanks around it. -/
theorem LiteralForm.trim_eq {text : List Char} {v : Int} (form : LiteralForm text v) :
    trim text = text := by
  have token {body : List Char} {n : Nat} (magnitude : Magnitude body n) (le : n ≤ 2 ^ 63 - 1) :
      Token body :=
    token_of_boundedMagnitude? (boundedMagnitude?_eq_some_iff.mpr ⟨magnitude, le⟩)
  cases form with
  | unsigned magnitude le => exact (token magnitude le).trim_eq
  | @plus body _ magnitude le =>
    have notBlank : ∀ c ∈ '+' :: body, isBlank c = false :=
      List.forall_mem_cons.mpr ⟨by decide, (token magnitude le).notBlank⟩
    exact trim_eq_self (fun c mem => notBlank c (List.mem_of_head? mem))
      fun c mem => notBlank c (List.mem_of_getLast? mem)
  | minus magnitude le => exact ((token magnitude le).cons (by decide)).trim_eq

/-- A literal starts with a sign or a digit. -/
theorem LiteralForm.starts {text : List Char} {v : Int} (form : LiteralForm text v) :
    ∃ c rest, text = c :: rest ∧ (c = '+' ∨ c = '-' ∨ c.isDigit = true) := by
  cases form with
  | unsigned magnitude le =>
    obtain ⟨c, rest, rfl, digit⟩ := magnitude.starts
    exact ⟨c, rest, rfl, .inr (.inr digit)⟩
  | plus => exact ⟨'+', _, rfl, .inl rfl⟩
  | minus => exact ⟨'-', _, rfl, .inr (.inl rfl)⟩

/-! ## 4. Names of labels -/

theorem isDigit_of_lt {c : Char} (above : 57 < c.toNat) : c.isDigit = false := by
  refine Bool.eq_false_iff.mpr fun digit => ?_
  unfold Char.isDigit at digit
  simp only [Bool.and_eq_true, decide_eq_true_eq, UInt32.le_iff_toNat_le] at digit
  exact absurd digit.2 (Nat.not_le_of_lt above)

/-- A name starts with no digit. -/
theorem isDigit_of_isIdentifierStart {c : Char} (h : isIdentifierStart c = true) :
    c.isDigit = false := by
  unfold isIdentifierStart Char.isAlpha Char.isUpper Char.isLower at h
  simp only [Bool.or_eq_true, Bool.and_eq_true, decide_eq_true_eq, ge_iff_le,
    UInt32.le_iff_toNat_le] at h
  rcases h with ((⟨above, _⟩ | ⟨above, _⟩) | rfl) | rfl
  · exact isDigit_of_lt (Nat.lt_of_lt_of_le (by decide) above)
  · exact isDigit_of_lt (Nat.lt_of_lt_of_le (by decide) above)
  · decide
  · decide

theorem isBlank_of_isIdentifierRest {c : Char} (h : isIdentifierRest c = true) :
    isBlank c = false := by
  unfold isIdentifierRest at h
  simp only [Bool.or_eq_true, decide_eq_true_eq] at h
  rcases h with ((plain | rfl) | rfl) | rfl
  · exact isBlank_of_isPlain (by rw [isPlain, plain, Bool.true_or])
  · decide
  · decide
  · decide

theorem isIdentifierRest_of_start {c : Char} (h : isIdentifierStart c = true) :
    isIdentifierRest c = true := by
  unfold isIdentifierStart at h
  unfold isIdentifierRest Char.isAlphanum
  simp only [Bool.or_eq_true] at h ⊢
  rcases h with (alpha | dash) | dot
  · exact .inl (.inl (.inl (.inl alpha)))
  · exact .inl (.inl (.inr dash))
  · exact .inl (.inr dot)

/-- **No name of a label is a literal.** -/
theorem literal?_of_identifier {cs : List Char} (h : isIdentifier cs = true) :
    literal? cs = none := by
  cases cs with
  | nil => cases h
  | cons c rest =>
    obtain ⟨start, follow⟩ := Bool.and_eq_true_iff.mp h
    have plain : ∀ d ∈ c :: rest, isIdentifierRest d = true :=
      List.forall_mem_cons.mpr ⟨isIdentifierRest_of_start start, List.all_eq_true.mp follow⟩
    have notBlank : ∀ d ∈ c :: rest, isBlank d = false := fun d mem =>
      isBlank_of_isIdentifierRest (plain d mem)
    have whole : trim (c :: rest) = c :: rest :=
      trim_eq_self (fun d mem => notBlank d (List.mem_of_head? mem))
        fun d mem => notBlank d (List.mem_of_getLast? mem)
    refine Option.eq_none_iff_forall_ne_some.mpr fun v read => ?_
    have form := literal?_eq_some_iff.mp read
    rw [whole] at form
    obtain ⟨d, _, eq, plus | minus | digit⟩ := form.starts
    all_goals cases eq
    · subst plus
      cases start
    · subst minus
      cases start
    · rw [isDigit_of_isIdentifierStart start] at digit
      cases digit

theorem labelled_eq_map (result : Except ParseFault Word) (label : Option String) :
    (do return (← result, label)) = result.map fun imm => (imm, label) := by
  cases result <;> rfl

/-- **The grammar of literals.** A text is read as an integer exactly if it is a literal for it with
    blanks around. A name of a label is none, so a branch target is read in one way: as an offset if
    it is a literal, through the label table if it is a name. -/
theorem literal_grammar :
    (∀ (cs : List Char) (v : Int), literal? cs = some v ↔
      ∃ before text after, Blank before ∧ Blank after ∧ cs = before ++ text ++ after ∧
        LiteralForm text v) ∧
    ∀ (labels : LabelTable) (slot : Nat) (field : Field) (cs : List Char),
      (∀ v, literal? cs = some v → isIdentifier cs = false ∧
        Operands.target labels slot field cs =
          (Operands.fit field v).map fun imm => (imm, none)) ∧
      (isIdentifier cs = true → literal? cs = none ∧
        Operands.target labels slot field cs =
          match labels.slot? (String.ofList cs) with
          | some there => (Operands.fit field (((there : Int) - slot) * 4)).map fun imm =>
              (imm, some (String.ofList cs))
          | none => .error (.undefinedLabel (String.ofList cs))) := by
  refine ⟨fun cs v => ?_, fun labels slot field cs => ⟨fun v read => ⟨?_, ?_⟩, fun name => ?_⟩⟩
  · rw [literal?_eq_some_iff]
    constructor
    · intro form
      obtain ⟨before, after, hb, ha, whole⟩ := exists_trim cs
      exact ⟨before, trim cs, after, hb, ha, whole, form⟩
    · rintro ⟨before, text, after, hb, ha, rfl, form⟩
      rwa [trim_blanks hb ha, form.trim_eq]
  · refine Bool.eq_false_iff.mpr fun name => ?_
    rw [literal?_of_identifier name] at read
    cases read
  · rw [Operands.target, read]
    exact labelled_eq_map ..
  · have unread := literal?_of_identifier name
    refine ⟨unread, ?_⟩
    rw [Operands.target, unread]
    simp only [name, if_true]
    cases labels.slot? (String.ofList cs) with
    | none => rfl
    | some there => exact labelled_eq_map ..

/-- Blanks of two kinds around a negative literal, and a label that looks like the end of one. -/
theorem literal_grammar_mark :
    literal? "\u3000-0X1f\t".toList = some (-31) ∧ literal? "b1".toList = none ∧
      Operands.target ⟨[⟨"b1", 3, 9, 0⟩]⟩ 5 (.signed 13) "b1".toList = .ok (-8, some "b1") := by
  obtain ⟨reads, targets⟩ := literal_grammar
  refine ⟨?_, ?_⟩
  · have digits : List.Forall₂ (IsDigit 16) ['1', 'f'] [1, 15] :=
      .cons ⟨by decide, by decide⟩ (.cons ⟨by decide, by decide⟩ .nil)
    have magnitude : Magnitude "0X1f".toList 31 :=
      ⟨['0', 'X'], 16, ['1', 'f'], [1, 15], by decide, rfl, nofun, digits, by decide⟩
    exact (reads _ _).mpr ⟨"\u3000".toList, "-0X1f".toList, "\t".toList, by decide, by decide, rfl,
      .minus magnitude (by decide)⟩
  · obtain ⟨-, named⟩ := targets ⟨[⟨"b1", 3, 9, 0⟩]⟩ 5 (.signed 13) "b1".toList
    obtain ⟨unread, target⟩ := named (by decide)
    exact ⟨unread, target.trans rfl⟩

end Rv32i
