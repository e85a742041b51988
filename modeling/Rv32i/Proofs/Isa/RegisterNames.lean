import Mathlib.Data.List.Forall2
import Rv32i.Isa.Reg
import Rv32i.Proofs.Assembly.LiteralForm

/-!
# Which texts name a register

A register is named by number, by its name in the calling convention, or as `fp`. What these names
look like is said here without the list in which they are looked up.

* `Numeral` is a decimal numeral without leading zeros, which is the only one of its number
  (`numeral_iff`);
* `Reg.convention` gives the names of the calling convention, and `Reg.Spelling` all names;
* `Reg.lookup_spellings_iff` and `Reg.spelling_iff`: the list has every name once, with its
  register;
* `Reg.stepwise?` reads a name without the list, number first, and comes to the same
  (`Reg.stepwise?_eq`).

The main statement is `Reg.register_grammar`.
-/

namespace Rv32i

open Text

/-! ## 1. Numerals without leading zeros -/

/-- The text has decimal digits that write the number by their places, and starts with a zero only
    if that is all of it. -/
structure Numeral (cs : List Char) (n : Nat) : Prop where
  nonempty : cs ≠ []
  written : ∃ ds, List.Forall₂ (IsDigit 10) cs ds ∧ n = Nat.ofDigits 10 ds.reverse
  shortest : cs.head? = some '0' → cs = ['0']

theorem numeral_iff_read {cs : List Char} {n : Nat} :
    Numeral cs n ↔ natOfDigits? 10 cs = some n ∧ (cs.head? = some '0' → cs = ['0']) := by
  rw [natOfDigits?_eq_some_iff (by decide)]
  exact ⟨fun h => ⟨⟨h.nonempty, h.written⟩, h.shortest⟩, fun ⟨⟨nonempty, written⟩, shortest⟩ =>
    ⟨nonempty, written, shortest⟩⟩

theorem toDigits_of_digit? {c : Char} {d : Nat} (h : digit? 10 c = some d) :
    d < 10 ∧ Nat.toDigits 10 d = [c] := by
  obtain ⟨lt, spelled⟩ := (digit?_eq_some_iff (by decide)).mp h
  have capital : ∀ d : Fin 10, d.val.digitChar.toUpper = d.val.digitChar := by decide
  rw [Spells, capital ⟨d, lt⟩, or_self] at spelled
  exact ⟨lt, spelled ▸ Nat.toDigits_of_lt_base lt⟩

/-- Digits behind a number that is not zero continue its numeral. -/
theorem toDigits_append_of_read {cs : List Char} {start n : Nat} (positive : 0 < start)
    (h : cs.foldlM (fun n c => (digit? 10 c).map (n * 10 + ·)) start = some n) :
    Nat.toDigits 10 start ++ cs = Nat.toDigits 10 n := by
  induction cs generalizing start with
  | nil =>
    cases h
    exact List.append_nil _
  | cons c cs ih =>
    rw [List.foldlM_cons] at h
    obtain ⟨next, step, later⟩ := Option.bind_eq_some_iff.mp h
    obtain ⟨d, digit, rfl⟩ := Option.map_eq_some_iff.mp step
    obtain ⟨lt, single⟩ := toDigits_of_digit? digit
    have longer : Nat.toDigits 10 start ++ [c] = Nat.toDigits 10 (start * 10 + d) := by
      rw [← single, Nat.toDigits_append_toDigits (by decide) positive lt, Nat.mul_comm]
    calc Nat.toDigits 10 start ++ c :: cs
        = (Nat.toDigits 10 start ++ [c]) ++ cs := by rw [List.append_assoc, List.singleton_append]
      _ = Nat.toDigits 10 (start * 10 + d) ++ cs := by rw [longer]
      _ = Nat.toDigits 10 n := ih (by omega) later

/-- Digits that do not start with a zero are the numeral of the number they are read as. -/
theorem toDigits_of_read {c : Char} {cs : List Char} {n : Nat} (nonzero : c ≠ '0')
    (h : natOfDigits? 10 (c :: cs) = some n) : c :: cs = Nat.toDigits 10 n := by
  unfold natOfDigits? at h
  rw [List.isEmpty_cons, if_neg Bool.false_ne_true, List.foldlM_cons] at h
  obtain ⟨next, step, later⟩ := Option.bind_eq_some_iff.mp h
  obtain ⟨d, digit, rfl⟩ := Option.map_eq_some_iff.mp step
  obtain ⟨-, single⟩ := toDigits_of_digit? digit
  have positive : 0 < d := by
    refine Nat.pos_of_ne_zero fun zero => nonzero ?_
    rw [zero] at single
    exact (List.cons.inj single).1.symm
  rw [Nat.zero_mul, Nat.zero_add] at later
  have whole := toDigits_append_of_read positive later
  rwa [single] at whole

/-- Only the numeral of zero starts with a zero. -/
theorem head?_toDigits {n : Nat} (positive : 0 < n) : (Nat.toDigits 10 n).head? ≠ some '0' := by
  induction n using Nat.strongRecOn with
  | ind n ih =>
    rw [Nat.toDigits_eq_if (by decide)]
    split
    · rename_i small
      have nonzero : ∀ d : Fin 10, 0 < d.val → d.val.digitChar ≠ '0' := by decide
      intro zero
      exact nonzero ⟨n, small⟩ positive (Option.some.inj zero)
    · rename_i large
      -- the first digit is that of the quotient, which is not empty
      have first := ih (n / 10) (by omega) (by omega)
      have nonempty : Nat.toDigits 10 (n / 10) ≠ [] := Nat.toDigits_ne_nil
      obtain ⟨c, rest, eq⟩ := List.exists_cons_of_ne_nil nonempty
      rw [eq] at first ⊢
      exact first

/-- **A number has one numeral without leading zeros.** -/
theorem numeral_iff {cs : List Char} {n : Nat} : Numeral cs n ↔ cs = Nat.toDigits 10 n := by
  constructor
  · intro h
    obtain ⟨read, shortest⟩ := numeral_iff_read.mp h
    obtain ⟨c, cs, rfl⟩ := List.exists_cons_of_ne_nil h.nonempty
    by_cases zero : c = '0'
    · rw [shortest (congrArg some zero)] at read ⊢
      cases read
      rfl
    · exact toDigits_of_read zero read
  · rintro rfl
    refine numeral_iff_read.mpr ⟨natOfDigits?_toDigits (by decide) (by decide) n, fun zero => ?_⟩
    cases Nat.eq_zero_or_pos n with
    | inl none => rw [none]; rfl
    | inr positive => exact absurd zero (head?_toDigits positive)

/-! ## 2. Letters of either case -/

/-- The text is the name, with any of its letters as capitals. -/
def EitherCase (text name : List Char) : Prop :=
  List.Forall₂ (fun c l => c = l ∨ c = l.toUpper) text name

theorem toLower_of_not_isUpper {c : Char} (h : c.isUpper = false) : c.toLower = c :=
  dif_neg (of_decide_eq_false h)

/-- What holds of 26 characters in a row holds of every character among them. -/
theorem of_letters {p : Char → Prop} {first : Nat} (letters : ∀ k : Fin 26, p (.ofNat (first + k)))
    {c : Char} (low : first ≤ c.toNat) (high : c.toNat < first + 26) : p c := by
  have letter := letters ⟨c.toNat - first, by omega⟩
  rwa [Nat.add_sub_cancel' low, Char.ofNat_toNat] at letter

theorem toUpper_toLower {c : Char} (upper : c.isUpper = true) : c.toLower.toUpper = c := by
  have letters : ∀ k : Fin 26,
      (Char.ofNat (65 + k)).toLower.toUpper = Char.ofNat (65 + k) := by decide
  obtain ⟨low, high⟩ := of_decide_eq_true upper
  exact of_letters (p := fun c => c.toLower.toUpper = c) letters (UInt32.le_iff_toNat_le.mp low)
    (Nat.lt_succ_of_le (UInt32.le_iff_toNat_le.mp high))

theorem toLower_toUpper {l : Char} (lower : l.toLower = l) : l.toUpper.toLower = l := by
  have letters : ∀ k : Fin 26,
      (Char.ofNat (97 + k)).toUpper.toLower = Char.ofNat (97 + k) := by decide
  by_cases letter : 'a'.val ≤ l.val ∧ l.val ≤ 'z'.val
  · obtain ⟨low, high⟩ := letter
    exact of_letters (p := fun l => l.toUpper.toLower = l) letters (UInt32.le_iff_toNat_le.mp low)
      (Nat.lt_succ_of_le (UInt32.le_iff_toNat_le.mp high))
  · have same : l.toUpper = l := dif_neg letter
    rw [same, lower]

/-- A character is brought to a lower-case letter if it is the letter or its capital. -/
theorem toLower_eq_iff {c l : Char} (lower : l.toLower = l) :
    c.toLower = l ↔ c = l ∨ c = l.toUpper := by
  constructor
  · rintro rfl
    cases upper : c.isUpper with
    | true => exact .inr (toUpper_toLower upper).symm
    | false => exact .inl (toLower_of_not_isUpper upper).symm
  · rintro (rfl | rfl)
    · exact lower
    · exact toLower_toUpper lower

/-- **Bringing a text to lower case gives the name it is in either case.** -/
theorem map_toLower_eq_iff {text name : List Char} (lower : ∀ l ∈ name, l.toLower = l) :
    text.map Char.toLower = name ↔ EitherCase text name := by
  unfold EitherCase
  induction text generalizing name with
  | nil => rw [List.map_nil, List.forall₂_nil_left_iff, eq_comm]
  | cons c text ih =>
    cases name with
    | nil => rw [List.forall₂_nil_right_iff, List.map_eq_nil_iff]
    | cons l name =>
      obtain ⟨here, behind⟩ := List.forall_mem_cons.mp lower
      rw [List.map_cons, List.cons.injEq, List.forall₂_cons, toLower_eq_iff here, ih behind]

namespace Reg

/-! ## 3. Names -/

/-- Names that count on: a letter and a number, from `first` on, for registers from `start` on. -/
def counted (letter : Char) (first count start : Nat) : List (List Char × Nat) :=
  (List.range count).map fun k => (letter :: Nat.toDigits 10 (first + k), start + k)

/-- **The names of the calling convention**: five of their own, then temporaries, saved registers
    and arguments by number. The first of the temporaries and of the saved registers stand apart
    from the others. -/
def convention : List (List Char × Nat) :=
  [("zero".toList, 0), ("ra".toList, 1), ("sp".toList, 2), ("gp".toList, 3), ("tp".toList, 4)] ++
    counted 't' 0 3 5 ++ counted 's' 0 2 8 ++ counted 'a' 0 8 10 ++ counted 's' 2 10 18 ++
    counted 't' 3 4 28

/-- **The names of a register**, in lower case. -/
inductive Spelling : List Char → Reg → Prop
  | number {digits : List Char} {r : Reg} (numeral : Numeral digits r) : Spelling ('x' :: digits) r
  | conventional {name : List Char} {r : Reg} (listed : (name, r.val) ∈ convention) :
    Spelling name r
  | framePointer : Spelling ['f', 'p'] 8

theorem number_toList (r : Reg) : (number r).toList = 'x' :: Nat.toDigits 10 r := by
  simp only [number, decimal, String.toList_append, String.toList_ofList]
  rfl

theorem mem_spellings_iff {name : List Char} {r : Reg} :
    (name, r) ∈ spellings ↔
      name = (number r).toList ∨ name = (abiName r).toList ∨ name = ['f', 'p'] ∧ r = 8 := by
  have frame : "fp".toList = ['f', 'p'] := rfl
  simp only [spellings, frame, List.mem_append, List.mem_map, List.mem_finRange, true_and,
    Prod.mk.injEq, List.mem_singleton, or_assoc]
  constructor
  · rintro (⟨_, rfl, rfl⟩ | ⟨_, rfl, rfl⟩ | ⟨rfl, rfl⟩)
    · exact .inl rfl
    · exact .inr (.inl rfl)
    · exact .inr (.inr ⟨rfl, rfl⟩)
  · rintro (rfl | rfl | ⟨rfl, rfl⟩)
    · exact .inl ⟨r, rfl, rfl⟩
    · exact .inr (.inl ⟨r, rfl, rfl⟩)
    · exact .inr (.inr ⟨rfl, rfl⟩)

theorem number_mem_spellings (r : Reg) : ((number r).toList, r) ∈ spellings :=
  mem_spellings_iff.mpr (.inl rfl)

theorem abiName_mem_spellings (r : Reg) : ((abiName r).toList, r) ∈ spellings :=
  mem_spellings_iff.mpr (.inr (.inl rfl))

/-- **No name is listed for two registers**, so what is looked up is what is listed. -/
theorem lookup_spellings_iff {name : List Char} {r : Reg} :
    spellings.lookup name = some r ↔ (name, r) ∈ spellings := by
  constructor
  · intro h
    obtain ⟨before, after, split, -⟩ := List.lookup_eq_some_iff.mp h
    exact split ▸ List.mem_append_right _ List.mem_cons_self
  · have found : ∀ e ∈ spellings, spellings.lookup e.1 = some e.2 := by decide +kernel
    exact found (name, r)

/-- No two registers share a name of the calling convention. -/
theorem abiName_inj {r s : Reg} (same : (abiName r).toList = (abiName s).toList) : r = s := by
  have listed (t : Reg) : spellings.lookup (abiName t).toList = some t :=
    lookup_spellings_iff.mpr (abiName_mem_spellings t)
  exact Option.some.inj ((listed r).symm.trans (same ▸ listed s))

theorem convention_eq :
    convention = (List.finRange 32).map fun r => ((abiName r).toList, r.val) := by
  decide

theorem mem_convention_iff {name : List Char} {r : Reg} :
    (name, r.val) ∈ convention ↔ name = (abiName r).toList := by
  rw [convention_eq, List.mem_map]
  constructor
  · rintro ⟨s, -, same⟩
    obtain ⟨named, index⟩ := Prod.mk.inj same
    rw [← named, Fin.ext index]
  · rintro rfl
    exact ⟨r, List.mem_finRange r, rfl⟩

/-- **The list has all names of all registers.** -/
theorem spelling_iff {name : List Char} {r : Reg} : Spelling name r ↔ (name, r) ∈ spellings := by
  rw [mem_spellings_iff, number_toList]
  constructor
  · intro h
    cases h with
    | number numeral => exact .inl (congrArg _ (numeral_iff.mp numeral))
    | conventional listed => exact .inr (.inl (mem_convention_iff.mp listed))
    | framePointer => exact .inr (.inr ⟨rfl, rfl⟩)
  · rintro (rfl | named | ⟨rfl, rfl⟩)
    · exact .number (numeral_iff.mpr rfl)
    · exact .conventional (mem_convention_iff.mpr named)
    · exact .framePointer

/-! ## 4. Reading in steps -/

/-- The byte that digits write, `none` if the number takes more than a byte. -/
def byteOfDigits? (digits : List Char) : Option Byte :=
  ((natOfDigits? 10 digits).filter (· < 2 ^ 8)).map (BitVec.ofNat 8)

/-- The register whose number the digits are, without leading zeros. -/
def numbered? (digits : List Char) : Option Byte :=
  if digits ≠ [] ∧ digits.all Char.isDigit = true ∧
      (digits = ['0'] ∨ digits.head? ≠ some '0') then
    (byteOfDigits? digits).filter (·.toNat < 32)
  else none

/-- The register whose name a word is: the second name of register 8, or a place in the list of
    the first. -/
def named? (word : List Char) : Option Byte :=
  if word = "fp".toList then some 8
  else (abiNames.toList.findIdx? (·.toList = word)).map (BitVec.ofNat 8)

/-- **The register that a text names, read in steps.** An `x` in front decides for a number, and a
    text that starts with it is not looked for among the names. -/
def stepwise? (cs : List Char) : Option Byte :=
  match (trim cs).map Char.toLower with
  | 'x' :: digits => numbered? digits
  | word => named? word

theorem byteOfDigits?_eq_some_iff {digits : List Char} {b : Byte} :
    byteOfDigits? digits = some b ↔ natOfDigits? 10 digits = some b.toNat := by
  unfold byteOfDigits?
  rw [Option.map_eq_some_iff]
  constructor
  · rintro ⟨n, read, rfl⟩
    obtain ⟨value, small⟩ := Option.filter_eq_some_iff.mp read
    rw [value, BitVec.toNat_ofNat, Nat.mod_eq_of_lt (of_decide_eq_true small)]
  · intro value
    refine ⟨b.toNat, Option.filter_eq_some_iff.mpr ⟨value, decide_eq_true b.isLt⟩, ?_⟩
    exact BitVec.ofNat_toNat 8 b

theorem numbered?_eq_some_iff {digits : List Char} {b : Byte} :
    numbered? digits = some b ↔ ∃ r : Reg, Numeral digits r ∧ r.toByte = b := by
  unfold numbered?
  constructor
  · intro h
    split at h
    · rename_i form
      obtain ⟨read, small⟩ := Option.filter_eq_some_iff.mp h
      refine ⟨⟨b.toNat, of_decide_eq_true small⟩, numeral_iff_read.mpr ⟨?_, ?_⟩, ?_⟩
      · exact byteOfDigits?_eq_some_iff.mp read
      · exact fun zero => form.2.2.resolve_right fun ne => ne zero
      · exact BitVec.ofNat_toNat 8 b
    · cases h
  · rintro ⟨r, numeral, rfl⟩
    obtain ⟨ds, digits, -⟩ := numeral.written
    obtain ⟨read, shortest⟩ := numeral_iff_read.mp numeral
    have all := List.all_eq_true.mpr (forall_isDigit digits)
    have start := Decidable.or_iff_not_imp_right.mpr fun zero =>
      shortest (Decidable.not_not.mp zero)
    rw [if_pos ⟨numeral.nonempty, all, start⟩]
    have value : r.toByte.toNat = r.val := toNat_toByte r
    refine Option.filter_eq_some_iff.mpr ⟨byteOfDigits?_eq_some_iff.mpr ?_, ?_⟩
    · rw [read, value]
    · rw [value]
      exact decide_eq_true r.isLt

theorem named?_eq_some_iff {word : List Char} {b : Byte} :
    named? word = some b ↔
      ∃ r : Reg, (word = (abiName r).toList ∨ word = ['f', 'p'] ∧ r = 8) ∧ r.toByte = b := by
  unfold named?
  split
  · rename_i frame
    have others : ∀ r : Reg, "fp".toList ≠ (abiName r).toList := by decide
    subst frame
    constructor
    · rintro ⟨⟩
      exact ⟨8, .inr ⟨rfl, rfl⟩, rfl⟩
    · rintro ⟨r, named | ⟨-, rfl⟩, rfl⟩
      · exact absurd named (others r)
      · rfl
  · rename_i other
    rw [Option.map_eq_some_iff]
    constructor
    · rintro ⟨i, found, rfl⟩
      obtain ⟨lt, named, -⟩ := List.findIdx?_eq_some_iff_getElem.mp found
      exact ⟨⟨i, lt⟩, .inl (of_decide_eq_true named).symm, rfl⟩
    · rintro ⟨r, rfl | ⟨frame, -⟩, rfl⟩
      · refine ⟨r, List.findIdx?_eq_some_iff_getElem.mpr ⟨r.isLt, decide_eq_true rfl, ?_⟩, rfl⟩
        intro j before same
        have lt : j < 32 := Nat.lt_trans before r.isLt
        have again : (⟨j, lt⟩ : Reg) = r := abiName_inj (of_decide_eq_true same)
        exact absurd (congrArg Fin.val again) (Nat.ne_of_lt before)
      · exact absurd frame other

/-- **Reading in steps comes to what is listed.** -/
theorem stepwise?_eq (cs : List Char) : stepwise? cs = (ofText? cs).map toByte := by
  unfold stepwise? ofText?
  generalize (trim cs).map Char.toLower = word
  refine Option.ext fun b => ?_
  simp only [Option.map_eq_some_iff, lookup_spellings_iff, mem_spellings_iff, number_toList]
  split
  · rename_i digits
    -- no other name starts with an `x`, so a wrong number is no name either
    have names : ∀ r : Reg, (abiName r).toList.head? ≠ some 'x' := by decide
    rw [numbered?_eq_some_iff]
    refine exists_congr fun r => and_congr_left fun _ => ?_
    rw [numeral_iff]
    constructor
    · rintro rfl
      exact .inl rfl
    · rintro (same | same | ⟨same, -⟩)
      · exact List.cons.inj same |>.2
      · exact absurd (same ▸ rfl) (names r)
      · cases same
  · rename_i other
    rw [named?_eq_some_iff]
    refine exists_congr fun r => and_congr_left fun _ => ?_
    exact (or_iff_right (other _)).symm

/-! ## 5. The texts around a name -/

/-- A name of a register has no blanks and nothing else in it that separates operands. -/
theorem token_of_mem_spellings {name : List Char} {r : Reg} (listed : (name, r) ∈ spellings) :
    Token name := by
  have plain : ∀ e ∈ spellings, e.1 ≠ [] ∧ e.1.all isPlain = true := by decide +kernel
  obtain ⟨nonempty, letters⟩ := plain _ listed
  exact ⟨nonempty, List.all_eq_true.mp letters⟩

/-- A name of a register has no capitals. -/
theorem toLower_of_mem_spellings {name : List Char} {r : Reg} (listed : (name, r) ∈ spellings) :
    ∀ l ∈ name, l.toLower = l := by
  have lower : ∀ e ∈ spellings, e.1.all (!·.isUpper) = true := by decide +kernel
  intro l mem
  have letter := List.all_eq_true.mp (lower _ listed) l mem
  exact toLower_of_not_isUpper (Bool.not_eq_true' _ ▸ letter)

/-- A text spells a name in either case exactly if the name is listed and is the text in lower
    case. -/
theorem mem_spellings_of_text {text : List Char} {r : Reg} :
    (text.map Char.toLower, r) ∈ spellings ↔ ∃ name, EitherCase text name ∧ Spelling name r := by
  constructor
  · intro listed
    have cased := (map_toLower_eq_iff (toLower_of_mem_spellings listed)).mp rfl
    exact ⟨_, cased, spelling_iff.mpr listed⟩
  · rintro ⟨name, cased, spelled⟩
    have listed := spelling_iff.mp spelled
    rwa [(map_toLower_eq_iff (toLower_of_mem_spellings listed)).mpr cased]

/-- **What names a register is a name of it**, with the blanks around it removed. -/
theorem ofText?_eq_some_iff {cs : List Char} {r : Reg} :
    ofText? cs = some r ↔ ∃ name, EitherCase (trim cs) name ∧ Spelling name r := by
  rw [ofText?, lookup_spellings_iff, mem_spellings_of_text]

/-- A name as it is listed is read as its register. -/
theorem ofText?_of_mem_spellings {name : List Char} {r : Reg} (listed : (name, r) ∈ spellings) :
    ofText? name = some r := by
  have lower : name.map Char.toLower = name :=
    (List.map_congr_left (toLower_of_mem_spellings listed)).trans (List.map_id' name)
  rwa [ofText?, (token_of_mem_spellings listed).trim_eq, lower, lookup_spellings_iff]

theorem shownName_reg (r : Reg) : shownName r = abiName r := by
  rw [shownName, Vector.getElem?_eq_getElem r.isLt]
  rfl

theorem shownName_of_le {index : Nat} (le : 32 ≤ index) : shownName index = "?" := by
  rw [shownName, Vector.getElem?_eq_none le]
  rfl

/-- **The grammar of register names.** A text is read as a register exactly if it is a name of it,
    in either case and with blanks around: `x` and the numeral of its number, its name in the
    calling convention, or `fp`. Reading in steps, with the number in bytes, comes to the same. The
    name that is shown of a register is that of the convention and is read as the register, and what
    is shown of a number that is none is not read at all. -/
theorem register_grammar :
    (∀ (cs : List Char) (r : Reg), ofText? cs = some r ↔
      ∃ before text after name, Blank before ∧ Blank after ∧ cs = before ++ text ++ after ∧
        EitherCase text name ∧ Spelling name r) ∧
    (∀ cs : List Char, stepwise? cs = (ofText? cs).map toByte) ∧
    (∀ r : Reg, ((shownName r).toList, r.val) ∈ convention ∧
      ofText? (shownName r).toList = some r) ∧
    ∀ index : Nat, 32 ≤ index → shownName index = "?" ∧
      ∀ cs : List Char, trim cs = (shownName index).toList → ofText? cs = none := by
  refine ⟨fun cs r => ?_, stepwise?_eq, fun r => ?_, fun index outside => ?_⟩
  · constructor
    · intro read
      obtain ⟨name, cased, spelled⟩ := ofText?_eq_some_iff.mp read
      obtain ⟨before, after, hb, ha, whole⟩ := exists_trim cs
      exact ⟨before, trim cs, after, name, hb, ha, whole, cased, spelled⟩
    · rintro ⟨before, text, after, name, hb, ha, rfl, cased, spelled⟩
      have listed := mem_spellings_of_text.mpr ⟨name, cased, spelled⟩
      have token : Token text := token_of_map_toLower (token_of_mem_spellings listed)
      rw [ofText?_eq_some_iff, trim_blanks hb ha, token.trim_eq]
      exact ⟨name, cased, spelled⟩
  · rw [shownName_reg]
    exact ⟨mem_convention_iff.mpr rfl, ofText?_of_mem_spellings (abiName_mem_spellings r)⟩
  · have shown := shownName_of_le outside
    refine ⟨shown, fun cs text => ?_⟩
    rw [ofText?, text, shown]
    decide

/-- A name in capitals between blanks of two kinds, and the mark that is shown where no register
    is. -/
theorem register_grammar_capitals :
    ofText? "\u3000S11\t".toList = some 27 ∧ stepwise? "\u3000S11\t".toList = some 27 ∧
      shownName 255 = "?" ∧ ofText? " ?\r".toList = none := by
  obtain ⟨named, steps, -, unnamed⟩ := register_grammar
  have saved : ofText? "\u3000S11\t".toList = some 27 := by
    have cased : EitherCase "S11".toList ['s', '1', '1'] :=
      .cons (.inr rfl) (.cons (.inl rfl) (.cons (.inl rfl) .nil))
    exact (named _ _).mpr ⟨"\u3000".toList, "S11".toList, "\t".toList, _, by decide, by decide,
      rfl, cased, .conventional (by decide)⟩
  obtain ⟨shown, unread⟩ := unnamed 255 (by decide)
  refine ⟨saved, ?_, shown, unread _ ?_⟩
  · rw [steps, saved]
    rfl
  · rw [shown]
    decide

end Reg

end Rv32i
