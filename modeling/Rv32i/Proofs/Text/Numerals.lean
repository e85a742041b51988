import Rv32i.Isa.Literal
import Rv32i.Proofs.Text.Blanks

/-!
# Numerals read back

* A `Token` is a non-empty text of letters, digits and minus signs. No such character separates
  or ends anything in a source, so a token comes back whole wherever it is written;
* `natOfDigits?_toDigits`: the digits of a number read back as the number;
* `literal?_signed` and `literal?_hex`: so do a signed decimal and a hexadecimal numeral;
* `token_of_literal?`: nothing else reads back than a token, which may have a plus sign in front.
-/

namespace Rv32i

open Text

/-! ## 1. Tokens -/

/-- Letters, digits and the minus sign. -/
def isPlain (c : Char) : Bool :=
  c.isAlphanum || c = '-'

/-- A text that is not empty and has nothing but letters, digits and minus signs. -/
structure Token (cs : List Char) : Prop where
  nonempty : cs ≠ []
  plain : ∀ c ∈ cs, isPlain c = true

/-- A character that is none of the plain ones is in no token. -/
theorem Token.not_mem {cs : List Char} (h : Token cs) {c : Char} (hc : isPlain c = false) :
    c ∉ cs := by
  intro mem
  rw [h.plain c mem] at hc
  cases hc

theorem Token.ne {cs : List Char} (h : Token cs) {c d : Char} (mem : d ∈ cs)
    (hc : isPlain c = false) : d ≠ c :=
  fun e => h.not_mem hc (e ▸ mem)

/-- The code points of the plain characters. -/
theorem toNat_of_isPlain {c : Char} (h : isPlain c = true) :
    c.toNat = 45 ∨ 48 ≤ c.toNat ∧ c.toNat ≤ 57 ∨ 65 ≤ c.toNat ∧ c.toNat ≤ 90 ∨
      97 ≤ c.toNat ∧ c.toNat ≤ 122 := by
  have dash : '-'.toNat = 45 := rfl
  unfold isPlain Char.isAlphanum Char.isAlpha Char.isUpper Char.isLower Char.isDigit at h
  simp only [Bool.or_eq_true, Bool.and_eq_true, decide_eq_true_eq, ge_iff_le,
    UInt32.le_iff_toNat_le] at h
  rcases h with ((⟨lo, hi⟩ | ⟨lo, hi⟩) | ⟨lo, hi⟩) | rfl
  · exact .inr (.inr (.inl ⟨lo, hi⟩))
  · exact .inr (.inr (.inr ⟨lo, hi⟩))
  · exact .inr (.inl ⟨lo, hi⟩)
  · exact .inl dash

theorem isBlank_of_isPlain {c : Char} (h : isPlain c = true) : isBlank c = false := by
  have range := toNat_of_isPlain h
  unfold isBlank
  refine List.any_eq_false.mpr fun r mem inside => ?_
  have bounds : r.1 ≤ c.toNat ∧ c.toNat ≤ r.2 := by simpa using inside
  have outside : ∀ r ∈ blankRanges, r.2 ≤ 32 ∨ 133 ≤ r.1 := by decide
  have := outside r mem
  omega

theorem Token.notBlank {cs : List Char} (h : Token cs) : ∀ c ∈ cs, isBlank c = false :=
  fun c mem => isBlank_of_isPlain (h.plain c mem)

theorem Token.trim_eq {cs : List Char} (h : Token cs) : trim cs = cs :=
  trim_eq_self (fun c mem => h.notBlank c (List.mem_of_head? mem))
    fun c mem => h.notBlank c (List.mem_of_getLast? mem)

theorem Token.cons {cs : List Char} (h : Token cs) {c : Char} (hc : isPlain c = true) :
    Token (c :: cs) := by
  refine ⟨List.cons_ne_nil c cs, fun d mem => ?_⟩
  rcases List.mem_cons.mp mem with rfl | mem
  · exact hc
  · exact h.plain d mem

/-! ## 2. Digits -/

theorem digit?_digitChar {base d : Nat} (hd : d < base) (le : base ≤ 16) :
    digit? base d.digitChar = some d := by
  have value : ∀ d : Fin 16, digitValue d.val.digitChar = some d.val := by decide
  rw [digit?, value ⟨d, by omega⟩, Option.filter_some]
  exact if_pos (decide_eq_true hd)

theorem isPlain_digitChar {d : Nat} (hd : d < 16) : isPlain d.digitChar = true := by
  have plain : ∀ d : Fin 16, isPlain d.val.digitChar = true := by decide
  exact plain ⟨d, hd⟩

/-- The digits of a number are a token. -/
theorem token_toDigits {base : Nat} (two : 1 < base) (le : base ≤ 16) (n : Nat) :
    Token (Nat.toDigits base n) := by
  refine ⟨Nat.toDigits_ne_nil, ?_⟩
  induction n using Nat.strongRecOn with
  | ind n ih =>
    rw [Nat.toDigits_eq_if two]
    split
    · rename_i small
      intro c mem
      rw [List.mem_singleton.mp mem]
      exact isPlain_digitChar (by omega)
    · rename_i large
      intro c mem
      rcases List.mem_append.mp mem with mem | mem
      · exact ih (n / base) (Nat.div_lt_self (by omega) two) c mem
      · rw [List.mem_singleton.mp mem]
        exact isPlain_digitChar (Nat.lt_of_lt_of_le (Nat.mod_lt n (by omega)) le)

/-- **The digits of a number read back as the number.** -/
theorem natOfDigits?_toDigits {base : Nat} (two : 1 < base) (le : base ≤ 16) (n : Nat) :
    natOfDigits? base (Nat.toDigits base n) = some n := by
  have nonempty : (Nat.toDigits base n).isEmpty = false :=
    List.isEmpty_eq_false_iff.mpr Nat.toDigits_ne_nil
  rw [natOfDigits?, nonempty]
  show (Nat.toDigits base n).foldlM (fun n c => (digit? base c).map (n * base + ·)) 0 = some n
  clear nonempty
  induction n using Nat.strongRecOn with
  | ind n ih =>
    rw [Nat.toDigits_eq_if two]
    split
    · rename_i small
      rw [List.foldlM_cons, digit?_digitChar small le]
      simp
    · rename_i large
      rw [List.foldlM_append, ih (n / base) (Nat.div_lt_self (by omega) two)]
      rw [Option.bind_eq_bind, Option.bind_some, List.foldlM_cons,
        digit?_digitChar (Nat.mod_lt n (by omega)) le]
      simp [Nat.div_add_mod']

theorem isPlain_of_digitValue {c : Char} {d : Nat} (h : digitValue c = some d) :
    isPlain c = true := by
  unfold isPlain Char.isAlphanum Char.isAlpha Char.isUpper Char.isLower Char.isDigit
  simp only [Bool.or_eq_true, Bool.and_eq_true, decide_eq_true_eq, ge_iff_le]
  unfold digitValue at h
  split at h
  · rename_i digit
    exact .inl (.inr digit)
  · split at h
    · rename_i lower
      exact .inl (.inl (.inr ⟨lower.1, UInt32.le_trans lower.2 (by decide)⟩))
    · split at h
      · rename_i upper
        exact .inl (.inl (.inl ⟨upper.1, UInt32.le_trans upper.2 (by decide)⟩))
      · cases h

/-- **What reads as a number is a token.** -/
theorem token_of_natOfDigits? {base n : Nat} {cs : List Char}
    (h : natOfDigits? base cs = some n) : Token cs := by
  unfold natOfDigits? at h
  split at h
  · cases h
  · rename_i nonempty
    refine ⟨fun nil => nonempty (List.isEmpty_iff.mpr nil), ?_⟩
    generalize 0 = start at h
    clear nonempty
    induction cs generalizing start with
    | nil => exact List.forall_mem_nil _
    | cons c cs ih =>
      rw [List.foldlM_cons] at h
      obtain ⟨next, step, later⟩ := Option.bind_eq_some_iff.mp h
      obtain ⟨d, digit, -⟩ := Option.map_eq_some_iff.mp step
      have value := (Option.filter_eq_some_iff.mp digit).1
      exact List.forall_mem_cons.mpr ⟨isPlain_of_digitValue value, ih next later⟩

/-! ## 3. Literals -/

/-- Decimal digits have no radix mark. -/
theorem magnitude?_of_digits {cs : List Char} (digits : ∀ c ∈ cs, c.isDigit = true) :
    magnitude? cs = natOfDigits? 10 cs := by
  have mark {c : Char} {rest : List Char} (hc : c.isDigit = false) : cs ≠ '0' :: c :: rest := by
    rintro rfl
    have digit := digits c (List.mem_cons_of_mem _ List.mem_cons_self)
    rw [hc] at digit
    cases digit
  unfold magnitude?
  split
  · exact absurd rfl (mark (by decide))
  · exact absurd rfl (mark (by decide))
  · exact absurd rfl (mark (by decide))
  · exact absurd rfl (mark (by decide))
  · rfl

theorem boundedMagnitude?_toDigits {n : Nat} (le : n ≤ maxMagnitude) :
    boundedMagnitude? (Nat.toDigits 10 n) = some n := by
  have digits : ∀ c ∈ Nat.toDigits 10 n, c.isDigit = true :=
    fun c => Nat.isDigit_of_mem_toDigits (by decide) (by decide)
  rw [boundedMagnitude?, magnitude?_of_digits digits,
    natOfDigits?_toDigits (by decide) (by decide), Option.filter_some]
  exact if_pos (decide_eq_true le)

/-- A token that starts with a digit has no sign. -/
theorem literal?_of_digit {c : Char} {cs : List Char} (token : Token (c :: cs))
    (digit : c.isDigit = true) :
    literal? (c :: cs) = (boundedMagnitude? (c :: cs)).map fun n : Nat => (n : Int) := by
  rw [literal?, token.trim_eq]
  split
  · rename_i eq
    cases eq
    cases digit
  · rename_i eq
    cases eq
    cases digit
  · rfl

theorem literal?_decimal {n : Nat} (le : n ≤ maxMagnitude) :
    literal? (decimal n).toList = some (n : Int) := by
  have token := token_toDigits (by decide : 1 < 10) (by decide) n
  have digits : ∀ c ∈ Nat.toDigits 10 n, c.isDigit = true :=
    fun c => Nat.isDigit_of_mem_toDigits (by decide) (by decide)
  have value := boundedMagnitude?_toDigits le
  rw [decimal, String.toList_ofList]
  obtain ⟨c, cs, eq⟩ := List.exists_cons_of_ne_nil token.nonempty
  rw [eq] at token digits value ⊢
  rw [literal?_of_digit token (digits c List.mem_cons_self), value]
  rfl

/-- **A decimal numeral reads back**, with a sign or without. -/
theorem literal?_signed {z : Int} (le : z.natAbs ≤ maxMagnitude) :
    literal? (signed z).toList = some z := by
  unfold signed
  split
  · rename_i negative
    have value := boundedMagnitude?_toDigits le
    have token : Token ('-' :: Nat.toDigits 10 z.natAbs) :=
      (token_toDigits (by decide) (by decide) _).cons (by decide)
    simp only [String.toList_append, decimal, String.toList_ofList]
    show literal? ('-' :: Nat.toDigits 10 z.natAbs) = some z
    rw [literal?, token.trim_eq]
    show (boundedMagnitude? (Nat.toDigits 10 z.natAbs)).map (fun n : Nat => -(n : Int)) = some z
    rw [value, Option.map_some]
    congr 1
    omega
  · rename_i positive
    rw [literal?_decimal le]
    congr 1
    omega

/-- **A hexadecimal numeral reads back.** -/
theorem literal?_hex {n : Nat} (le : n ≤ maxMagnitude) :
    literal? ("0x" ++ hex n).toList = some (n : Int) := by
  have token : Token ('0' :: 'x' :: Nat.toDigits 16 n) :=
    ((token_toDigits (by decide) (by decide) _).cons (by decide)).cons (by decide)
  have value : boundedMagnitude? ('0' :: 'x' :: Nat.toDigits 16 n) = some n := by
    show (natOfDigits? 16 (Nat.toDigits 16 n)).filter _ = some n
    rw [natOfDigits?_toDigits (by decide) (by decide), Option.filter_some]
    exact if_pos (decide_eq_true le)
  simp only [String.toList_append, hex, String.toList_ofList]
  show literal? ('0' :: 'x' :: Nat.toDigits 16 n) = some (n : Int)
  rw [literal?_of_digit token (by decide), value]
  rfl

/-! ## 4. What reads as something -/

theorem token_of_boundedMagnitude? {cs : List Char} {n : Nat}
    (h : boundedMagnitude? cs = some n) : Token cs := by
  have value := (Option.filter_eq_some_iff.mp h).1
  unfold magnitude? at value
  split at value
  all_goals have digits := token_of_natOfDigits? value
  · exact (digits.cons (by decide)).cons (by decide)
  · exact (digits.cons (by decide)).cons (by decide)
  · exact (digits.cons (by decide)).cons (by decide)
  · exact (digits.cons (by decide)).cons (by decide)
  · exact digits

/-- **A literal is a token**, or a token behind a plus sign. -/
theorem token_of_literal? {cs : List Char} {z : Int} (h : literal? cs = some z) :
    Token (trim cs) ∨ ∃ body, Token body ∧ trim cs = '+' :: body := by
  unfold literal? at h
  split at h
  all_goals obtain ⟨n, magnitude, -⟩ := Option.map_eq_some_iff.mp h
  · rename_i body eq
    rw [eq]
    exact .inl ((token_of_boundedMagnitude? magnitude).cons (by decide))
  · rename_i body eq
    exact .inr ⟨body, token_of_boundedMagnitude? magnitude, eq⟩
  · exact .inl (token_of_boundedMagnitude? magnitude)

/-- What is plain in lower case is plain. -/
theorem isPlain_of_toLower {c : Char} (h : isPlain c.toLower = true) : isPlain c = true := by
  unfold Char.toLower at h
  split at h
  · rename_i upper
    have both : c.isUpper = true := by
      unfold Char.isUpper
      exact decide_eq_true upper
    unfold isPlain Char.isAlphanum Char.isAlpha
    rw [both, Bool.true_or, Bool.true_or, Bool.true_or]
  · exact h

theorem token_of_map_toLower {cs : List Char} (h : Token (cs.map Char.toLower)) : Token cs :=
  ⟨fun nil => h.nonempty (congrArg (List.map Char.toLower) nil),
    fun _ mem => isPlain_of_toLower (h.plain _ (List.mem_map_of_mem mem))⟩

end Rv32i
