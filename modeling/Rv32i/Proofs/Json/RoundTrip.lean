import Rv32i.Json.Printer
import Rv32i.Json.Reader
import Rv32i.Proofs.Text.Numerals

/-!
# JSON, printed and read

What `Json.pretty` writes, `Json.read?` reads back, for every value whose integers are of 64 bits
and that holds nothing as it was written (`Plain`).

* `number?_signed` and `string?_quote`: numbers and strings come back, whatever stands behind a
  string, and behind a number what `Ends` a value;
* `Reads` says of a text that it reads as a value wherever it stands. What reading takes from the
  budget is covered by the length of the text;
* `reads_items` and `reads_members`: lines are put one after the other into the container that is
  open, so containers read if what they hold does;
* `read?_pretty`: the round trip.
-/

namespace Rv32i

open Text

namespace Json

/-- What stands behind a printed value: nothing, the next value or the line that closes the
    container. -/
inductive Ends : List Char → Prop
  | nothing : Ends []
  | comma (rest : List Char) : Ends (',' :: rest)
  | line (rest : List Char) : Ends ('\n' :: rest)

/-! ## 1. Numbers -/

section

variable {rest : List Char}

/-- A run of digits is read to its end. -/
theorem digits?_append {ds : List Char} (nonempty : ds ≠ []) (digits : ∀ c ∈ ds, c.isDigit = true)
    (ends : Ends rest) : digits? (ds ++ rest) = some (ds, rest) := by
  have behind : rest.dropWhile Char.isDigit = rest := by cases ends <;> rfl
  have taken : rest.takeWhile Char.isDigit = [] := by cases ends <;> rfl
  simp only [digits?, List.takeWhile_append_of_pos digits, List.dropWhile_append_of_pos digits,
    behind, taken, List.append_nil, List.isEmpty_eq_false_iff.mpr nonempty]
  rfl

/-- Zero alone is written with a zero in front. -/
theorem eq_zero_of_head?_toDigits {n : Nat} (zero : (Nat.toDigits 10 n).head? = some '0') :
    n = 0 := by
  induction n using Nat.strongRecOn with
  | ind n ih =>
    rw [Nat.toDigits_eq_if (by decide)] at zero
    split at zero
    · rename_i small
      have only : ∀ d : Fin 10, d.val.digitChar = '0' → d.val = 0 := by decide
      exact only ⟨n, small⟩ (Option.some.inj zero)
    · rename_i large
      obtain ⟨c, cs, front⟩ : ∃ c cs, Nat.toDigits 10 (n / 10) = c :: cs :=
        List.exists_cons_of_ne_nil Nat.toDigits_ne_nil
      rw [front] at zero
      have none := ih (n / 10) (by omega) (front ▸ zero)
      omega

theorem not_leading_zero (n : Nat) :
    ¬ ((Nat.toDigits 10 n).length > 1 ∧ (Nat.toDigits 10 n).head? = some '0') := by
  intro ⟨long, zero⟩
  rw [eq_zero_of_head?_toDigits zero] at long
  exact absurd long (by decide)

/-- A sign, if there is one, and what is behind it. -/
def splitSign : List Char → Bool × List Char
  | '-' :: cs => (true, cs)
  | cs => (false, cs)

/-- The digits behind a sign make a number, if it is an integer of 64 bits. -/
theorem number?_of_sign {cs : List Char} {negative : Bool} {n : Nat} {z : Int}
    (sign : splitSign cs = (negative, Nat.toDigits 10 n ++ rest))
    (value : integer? negative (Nat.toDigits 10 n) = some z) (ends : Ends rest) :
    number? cs = some (int z, rest) := by
  have digits : ∀ c ∈ Nat.toDigits 10 n, c.isDigit = true :=
    fun c => Nat.isDigit_of_mem_toDigits (by decide) (by decide)
  unfold number?
  split
  rename_i eq
  cases sign.symm.trans eq
  simp only [digits?_append Nat.toDigits_ne_nil digits ends, Option.bind_eq_bind, Option.bind_some,
    if_neg (not_leading_zero n)]
  cases ends <;> simp only [fraction?, exponent?, value, Option.bind_some] <;> rfl

/-- The first character of a number. -/
def isLead (c : Char) : Bool :=
  c = '-' || c.isDigit

theorem ne_of_isLead {c d : Char} (lead : isLead c = true) (other : isLead d = false) : c ≠ d := by
  rintro rfl
  cases other.symm.trans lead

theorem digit_ne_sign {n : Nat} {cs : List Char} : Nat.toDigits 10 n ++ rest ≠ '-' :: cs := by
  intro sign
  rcases List.append_eq_cons_iff.mp sign with ⟨empty, -⟩ | ⟨ds, sign, -⟩
  · exact Nat.toDigits_ne_nil empty
  · have digit : '-'.isDigit = true :=
      Nat.isDigit_of_mem_toDigits (b := 10) (n := n) (by decide) (by decide)
        (sign ▸ List.mem_cons_self)
    cases digit

/-- **An integer of 64 bits comes back.** -/
theorem number?_signed {z : Int} (low : -2 ^ 63 ≤ z) (high : z < 2 ^ 64) (ends : Ends rest) :
    number? ((signed z).toList ++ rest) = some (int z, rest) := by
  have value : natOfDigits? 10 (Nat.toDigits 10 z.natAbs) = some z.natAbs :=
    natOfDigits?_toDigits (by decide) (by decide) _
  unfold signed
  split
  · rename_i negative
    simp only [String.toList_append, decimal, String.toList_ofList]
    refine number?_of_sign (n := z.natAbs) rfl ?_ ends
    simp only [integer?, value, if_true]
    rw [if_pos (by omega)]
    congr 1
    omega
  · rename_i positive
    rw [decimal, String.toList_ofList]
    have unsigned : splitSign (Nat.toDigits 10 z.natAbs ++ rest) =
        (false, Nat.toDigits 10 z.natAbs ++ rest) := by
      rw [splitSign.eq_def]
      split
      · rename_i sign
        exact absurd sign digit_ne_sign
      · rfl
    refine number?_of_sign unsigned ?_ ends
    simp only [integer?, value]
    rw [if_neg Bool.false_ne_true, if_pos (by omega)]
    congr 1
    omega

theorem signed_starts (z : Int) : ∃ c cs, (signed z).toList = c :: cs ∧ isLead c = true := by
  obtain ⟨d, ds, digits⟩ : ∃ d ds, Nat.toDigits 10 z.natAbs = d :: ds :=
    List.exists_cons_of_ne_nil Nat.toDigits_ne_nil
  have digit : d.isDigit = true :=
    Nat.isDigit_of_mem_toDigits (b := 10) (n := z.natAbs) (by decide) (by decide)
      (digits ▸ List.mem_cons_self)
  unfold signed decimal
  split
  · exact ⟨'-', _, String.toList_append, rfl⟩
  · exact ⟨d, ds, by rw [String.toList_ofList, digits], by simp [isLead, digit]⟩

end

/-! ## 2. Strings -/

/-- A code point below the surrogates completes none. -/
theorem pushPoint_of_lt {point : Nat} (low : point < 0xD800) (before : List Nat) :
    pushPoint point before = point :: before := by
  cases before with
  | nil => rfl
  | cons high before => exact if_neg fun ⟨_, _, least, _⟩ => by omega

/-- A control character is written by four digits. -/
theorem control_digits {n : Nat} (control : n < 0x20) :
    ∃ a b c d, (padLeft 4 '0' (hex n)).toList = [a, b, c, d] ∧
      natOfDigits? 16 [a, b, c, d] = some n := by
  let padded (n : Nat) := List.replicate (4 - (Nat.toDigits 16 n).length) '0' ++ Nat.toDigits 16 n
  have four : ∀ n : Fin 0x20, (padded n).length = 4 ∧ natOfDigits? 16 (padded n) = some n.val := by
    decide
  obtain ⟨length, value⟩ := four ⟨n, control⟩
  obtain ⟨a, b, c, d, eq⟩ : ∃ a b c d, padded n = [a, b, c, d] :=
    ⟨_, _, _, _, List.eq_getElem_of_length_eq_four _ length⟩
  refine ⟨a, b, c, d, ?_, eq ▸ value⟩
  rw [padLeft, hex, String.toList_append, String.toList_ofList, String.toList_ofList,
    String.length_ofList]
  exact eq

/-- A character that is not escaped stands for itself. -/
theorem points?_plain {c : Char} (quote : c ≠ '"') (backslash : c ≠ '\\') (plain : ¬ c.toNat < 0x20)
    (before : List Nat) (rest : List Char) :
    points? before (c :: rest) = points? (c.toNat :: before) rest := by
  rw [points?.eq_def]
  split <;> rename_i eq <;> cases eq
  · exact absurd rfl quote
  · exact absurd rfl backslash
  · exact absurd rfl backslash
  · exact if_neg (not_or.mpr ⟨plain, backslash⟩)

/-- **A character comes back**, whether it is escaped or not. -/
theorem points?_escape (c : Char) (before : List Nat) (rest : List Char) :
    points? before (escape c ++ rest) = points? (c.toNat :: before) rest := by
  unfold escape
  split
  -- the characters that are escaped by a letter
  all_goals try rfl
  split
  · rename_i control
    obtain ⟨a, b, c, d, eq, value⟩ := control_digits control
    rw [eq]
    simp [points?, value, pushPoint_of_lt (Nat.lt_trans control (by decide))]
  · rename_i quote backslash _ _ _ _ _ plain
    exact points?_plain quote backslash plain before rest

theorem points?_flatMap (cs : List Char) (before : List Nat) (rest : List Char) :
    points? before (cs.flatMap escape ++ '"' :: rest) =
      some (before.reverse ++ cs.map Char.toNat, rest) := by
  induction cs generalizing before with
  | nil => simp [points?]
  | cons c cs ih =>
    rw [List.flatMap_cons, List.append_assoc, points?_escape, ih]
    simp

/-- **A string comes back.** -/
theorem string?_quote (text : String) (rest : List Char) :
    string? (text.toList.flatMap escape ++ '"' :: rest) = some (some text, rest) := by
  have valid : (text.toList.map Char.toNat).all Nat.isValidChar = true := by
    rw [List.all_map, List.all_eq_true]
    exact fun c _ => decide_eq_true c.valid
  have back : (text.toList.map Char.toNat).map Char.ofNat = text.toList := by
    rw [List.map_map]
    exact List.map_id'' Char.ofNat_toNat _
  rw [string?, points?_flatMap, List.reverse_nil, List.nil_append]
  simp only [Option.bind_eq_bind, Option.bind_some, valid, back, if_true, String.ofList_toList]
  rfl

theorem toList_quote (text : String) :
    (quote text).toList = '"' :: (text.toList.flatMap escape ++ ['"']) := by
  simp [quote]

/-! ## 3. Texts that read as a value -/

/-- Blanks in front of a text that starts with none are skipped. -/
theorem skip_append {gap : List Char} (blank : ∀ c ∈ gap, isSpace c = true) {c : Char}
    (visible : isSpace c = false) (rest : List Char) : skip (gap ++ c :: rest) = c :: rest := by
  rw [skip, List.dropWhile_append_of_pos blank]
  exact List.dropWhile_cons_of_neg (by rw [visible]; exact nofun)

theorem isSpace_newline (level : Nat) : ∀ c ∈ (newline level).toList, isSpace c = true := by
  intro c mem
  simp only [newline, String.toList_append, String.toList_ofList, List.mem_append,
    List.mem_replicate] at mem
  rcases mem with mem | ⟨-, rfl⟩
  · cases List.mem_singleton.mp mem
    rfl
  · rfl

theorem isSpace_blank : ∀ c ∈ [' '], isSpace c = true := by
  intro c mem
  cases List.mem_singleton.mp mem
  rfl

theorem Ends.of_newline (level : Nat) (rest : List Char) :
    Ends ((newline level).toList ++ rest) := by
  rw [newline, String.toList_append]
  exact .line _

/-- What reading goes on to from where it stands. -/
def resume (budget : Nat) : Option Progress → Option (Json × List Char)
  | some (.done value rest) => some (value, rest)
  | some (.more frames rest) => value? frames budget rest
  | none => none

theorem value?_succ (frames : List Frame) (budget : Nat) (cs : List Char) :
    value? frames (budget + 1) cs = resume budget (open? frames cs) := by
  rw [value?]
  rcases open? frames cs with _ | ⟨⟩ | ⟨⟩ <;> rfl

/-- **A text reads as a value**: it starts with neither a blank nor a closing bracket, and behind
    blanks, with any containers open, its value goes into the innermost one. -/
structure Reads (value : Json) (text : List Char) : Prop where
  starts : ∃ c cs, text = c :: cs ∧ isSpace c = false ∧ c ≠ ']'
  reads : ∃ cost ≤ text.length, ∀ (frames : List Frame) (budget : Nat) (gap rest : List Char),
    (∀ c ∈ gap, isSpace c = true) → Ends rest →
      value? frames (budget + cost) (gap ++ (text ++ rest)) =
        resume budget (close? value frames rest)

/-! ## 4. Values that are no containers -/

theorem reads_of_scalar {value : Json} {c : Char} {cs : List Char} (visible : isSpace c = false)
    (opens : c ≠ '[' ∧ c ≠ '\x7b') (closes : c ≠ ']')
    (scalar : ∀ rest, Ends rest → scalar? (c :: cs ++ rest) = some (value, rest)) :
    Reads value (c :: cs) where
  starts := ⟨c, cs, rfl, visible, closes⟩
  reads := by
    refine ⟨1, Nat.le_add_left 1 _, fun frames budget gap rest blank ends => ?_⟩
    rw [value?_succ, open?, List.cons_append, skip_append blank visible]
    split
    · rename_i eq
      cases eq
      exact absurd rfl opens.1
    · rename_i eq
      cases eq
      exact absurd rfl opens.2
    · rw [← List.cons_append, scalar rest ends]
      rfl

theorem reads_null : Reads null "null".toList :=
  reads_of_scalar (by decide) (by decide) (by decide) fun _ _ => rfl

theorem reads_bool (b : Bool) : Reads (bool b) (if b then "true" else "false").toList := by
  cases b with
  | false => exact reads_of_scalar (by decide) (by decide) (by decide) fun _ _ => rfl
  | true => exact reads_of_scalar (by decide) (by decide) (by decide) fun _ _ => rfl

theorem scalar?_of_isLead {c : Char} (lead : isLead c = true) (cs : List Char) :
    scalar? (c :: cs) = number? (c :: cs) := by
  rw [scalar?.eq_def]
  split
  case h_5 => rfl
  all_goals
    rename_i eq
    cases eq
    cases lead

theorem reads_int {z : Int} (low : -2 ^ 63 ≤ z) (high : z < 2 ^ 64) :
    Reads (int z) (signed z).toList := by
  obtain ⟨c, cs, eq, lead⟩ := signed_starts z
  have visible : isSpace c = false := by
    simp only [isSpace, Bool.or_eq_false_iff, decide_eq_false_iff_not]
    exact ⟨⟨⟨ne_of_isLead lead rfl, ne_of_isLead lead rfl⟩, ne_of_isLead lead rfl⟩,
      ne_of_isLead lead rfl⟩
  rw [eq]
  refine reads_of_scalar visible ⟨ne_of_isLead lead rfl, ne_of_isLead lead rfl⟩
    (ne_of_isLead lead rfl) fun rest ends => ?_
  rw [List.cons_append, scalar?_of_isLead lead, ← List.cons_append, ← eq]
  exact number?_signed low high ends

theorem reads_str (text : String) : Reads (str text) (quote text).toList := by
  rw [toList_quote]
  refine reads_of_scalar (by decide) (by decide) (by decide) fun rest _ => ?_
  rw [List.cons_append, List.append_assoc]
  show (string? (text.toList.flatMap escape ++ '"' :: rest)).map _ = _
  rw [string?_quote]
  rfl

/-! ## 5. Arrays -/

/-- The lines of items, with the commas between them. -/
def itemLines (level : Nat) (items : List Json) : List Char :=
  (",".intercalate (prettyItems level items)).toList

theorem itemLines_singleton (level : Nat) (item : Json) :
    itemLines level [item] = (newline level).toList ++ (item.prettyAt level).toList := by
  simp only [itemLines, prettyItems, String.intercalate_singleton, String.toList_append]

theorem itemLines_cons_cons (level : Nat) (item next : Json) (items : List Json) :
    itemLines level (item :: next :: items) =
      (newline level).toList ++ ((item.prettyAt level).toList ++
        ',' :: itemLines level (next :: items)) := by
  simp only [itemLines, prettyItems, String.intercalate_cons_cons, String.toList_append,
    List.append_assoc]
  rfl

/-- The first item's line does not close the array. -/
theorem skip_itemLines {level : Nat} {item : Json}
    (reads : Reads item (item.prettyAt level).toList) (items : List Json) (rest : List Char) :
    ∃ c cs, skip (itemLines level (item :: items) ++ rest) = c :: cs ∧ c ≠ ']' := by
  obtain ⟨c, cs, eq, visible, ne⟩ := reads.starts
  cases items with
  | nil =>
    rw [itemLines_singleton, eq, List.append_assoc, List.cons_append,
      skip_append (isSpace_newline level) visible]
    exact ⟨c, _, rfl, ne⟩
  | cons next items =>
    rw [itemLines_cons_cons, eq, List.append_assoc, List.cons_append, List.cons_append,
      skip_append (isSpace_newline level) visible]
    exact ⟨c, _, rfl, ne⟩

/-- **Items are read one after the other** into the array that is open. -/
theorem reads_items {level : Nat} {item : Json} {items : List Json}
    (each : ∀ i ∈ item :: items, Reads i (i.prettyAt level).toList) :
    ∃ cost ≤ (itemLines level (item :: items)).length,
      ∀ (frames : List Frame) (before : List Json) (budget outer : Nat) (rest : List Char),
        value? (.items before :: frames) (budget + cost)
            (itemLines level (item :: items) ++ ((newline outer).toList ++ ']' :: rest)) =
          resume budget (close? (arr (before.reverse ++ item :: items)) frames rest) := by
  induction items generalizing item with
  | nil =>
    obtain ⟨cost, le, reads⟩ := (each item List.mem_cons_self).reads
    rw [itemLines_singleton]
    refine ⟨cost, Nat.le_trans le (by simp), fun frames before budget outer rest => ?_⟩
    rw [List.append_assoc, reads _ _ _ _ (isSpace_newline level) (.of_newline outer _), close?,
      skip_append (isSpace_newline outer) (by decide)]
    simp only [List.reverse_cons]
  | cons next items ih =>
    obtain ⟨first, others⟩ := List.forall_mem_cons.mp each
    obtain ⟨cost, le, reads⟩ := first.reads
    obtain ⟨costs, les, later⟩ := ih others
    rw [itemLines_cons_cons]
    refine ⟨costs + cost, ?_, fun frames before budget outer rest => ?_⟩
    · simp only [List.length_append, List.length_cons]
      omega
    · rw [List.append_assoc, List.append_assoc, List.cons_append, ← Nat.add_assoc,
        reads _ _ _ _ (isSpace_newline level) (.comma _), close?]
      show value? (.items (item :: before) :: frames) (budget + costs) _ = _
      rw [later, List.reverse_cons, List.append_assoc, List.singleton_append]

theorem reads_arr_nil : Reads (arr []) "[]".toList where
  starts := ⟨'[', [']'], rfl, by decide, by decide⟩
  reads := by
    refine ⟨1, by decide, fun frames budget gap rest blank ends => ?_⟩
    show value? frames (budget + 1) (gap ++ '[' :: ']' :: rest) = _
    rw [value?_succ, open?, skip_append blank (by decide)]
    rfl

/-- **An array reads if its items do.** -/
theorem reads_arr {level : Nat} {item : Json} {items : List Json}
    (each : ∀ i ∈ item :: items, Reads i (i.prettyAt (level + 1)).toList) :
    Reads (arr (item :: items)) ((arr (item :: items)).prettyAt level).toList := by
  have text : ((arr (item :: items)).prettyAt level).toList =
      '[' :: (itemLines (level + 1) (item :: items) ++ ((newline level).toList ++ [']'])) := by
    simp only [prettyAt, itemLines, String.toList_append, List.append_assoc]
    rfl
  rw [text]
  obtain ⟨cost, le, reads⟩ := reads_items each
  refine ⟨⟨'[', _, rfl, by decide, by decide⟩, cost + 1, ?_,
    fun frames budget gap rest blank ends => ?_⟩
  · simp only [List.length_append, List.length_cons]
    omega
  · rw [List.cons_append, List.append_assoc, List.append_assoc, List.singleton_append,
      ← Nat.add_assoc, value?_succ, open?, skip_append blank (by decide)]
    obtain ⟨c, cs, front, ne⟩ :=
      skip_itemLines (each item List.mem_cons_self) items ((newline level).toList ++ ']' :: rest)
    simp only [front]
    split
    · rename_i eq
      cases eq
      exact absurd rfl ne
    · exact reads frames [] budget level rest

/-! ## 6. Objects -/

/-- The lines of members, with the commas between them. -/
def memberLines (level : Nat) (members : List (String × Json)) : List Char :=
  (",".intercalate (prettyMembers level members)).toList

/-- The line of a member, up to its colon. -/
def keyLine (level : Nat) (key : String) : List Char :=
  (newline level).toList ++ ((quote key).toList ++ [':'])

theorem memberLines_singleton (level : Nat) (key : String) (value : Json) :
    memberLines level [(key, value)] =
      keyLine level key ++ ([' '] ++ (value.prettyAt level).toList) := by
  simp [memberLines, keyLine, prettyMembers, String.toList_append]

theorem memberLines_cons_cons (level : Nat) (key : String) (value : Json) (next : String × Json)
    (members : List (String × Json)) :
    memberLines level ((key, value) :: next :: members) =
      keyLine level key ++ ([' '] ++ ((value.prettyAt level).toList ++
        ',' :: memberLines level (next :: members))) := by
  simp [memberLines, keyLine, prettyMembers, String.toList_append]

theorem key?_keyLine (level : Nat) (key : String) (rest : List Char) :
    key? (keyLine level key ++ rest) = some (some key, rest) := by
  have line : keyLine level key ++ rest =
      (newline level).toList ++ '"' :: (key.toList.flatMap escape ++ '"' :: ':' :: rest) := by
    simp only [keyLine, toList_quote, List.append_assoc, List.cons_append, List.nil_append]
  rw [line, key?, skip_append (isSpace_newline level) (by decide)]
  simp only [string?_quote, Option.bind_eq_bind, Option.bind_some]
  rfl

theorem skip_keyLine (level : Nat) (key : String) (rest : List Char) :
    ∃ cs, skip (keyLine level key ++ rest) = '"' :: cs := by
  rw [keyLine, toList_quote, List.append_assoc]
  exact ⟨_, skip_append (isSpace_newline level) (by decide) _⟩

/-- The first member's line does not close the object. -/
theorem skip_memberLines (level : Nat) (member : String × Json) (members : List (String × Json))
    (rest : List Char) :
    ∃ cs, skip (memberLines level (member :: members) ++ rest) = '"' :: cs := by
  obtain ⟨key, value⟩ := member
  cases members with
  | nil =>
    rw [memberLines_singleton, List.append_assoc]
    exact skip_keyLine level key _
  | cons next members =>
    rw [memberLines_cons_cons, List.append_assoc]
    exact skip_keyLine level key _

/-- A member as it is read, with a key that is a text. -/
def keyed (member : String × Json) : Option String × Json :=
  (some member.1, member.2)

theorem object_keyed (members : List (String × Json)) (text rest : List Char) :
    object (members.map keyed) text rest = obj members := by
  have all {f : Option String × Json → Option (String × Json)} (each : ∀ m, f (keyed m) = some m) :
      (members.map keyed).mapM f = some members := by
    induction members with
    | nil => rfl
    | cons m ms ih =>
      rw [List.map_cons, List.mapM_cons, each, ih]
      rfl
  rw [object, all fun _ => rfl]

/-- **Members are read one after the other** into the object that is open. The key of the first is
    read when the object is opened, and every other one with the comma before it. -/
theorem reads_members {level : Nat} {member : String × Json} {members : List (String × Json)}
    (each : ∀ m ∈ member :: members, Reads m.2 (m.2.prettyAt level).toList) :
    ∃ cost ≤ (memberLines level (member :: members)).length,
      ∀ (frames : List Frame) (text : List Char) (before : List (String × Json))
        (budget outer : Nat) (rest : List Char),
        resume (budget + cost)
            ((key? (memberLines level (member :: members) ++
                ((newline outer).toList ++ '\x7d' :: rest))).map fun (key, behind) =>
              .more (.members text (before.map keyed) key :: frames) behind) =
          resume budget (close? (obj (before.reverse ++ member :: members)) frames rest) := by
  induction members generalizing member with
  | nil =>
    obtain ⟨key, value⟩ := member
    obtain ⟨cost, le, reads⟩ := (each _ List.mem_cons_self).reads
    rw [memberLines_singleton]
    refine ⟨cost, Nat.le_trans le (by simp; omega), fun frames text before budget outer rest => ?_⟩
    rw [List.append_assoc, key?_keyLine, Option.map_some, resume, List.append_assoc,
      reads _ _ _ _ isSpace_blank (.of_newline outer _), close?,
      skip_append (isSpace_newline outer) (by decide)]
    have all : ((some key, value) :: before.map keyed).reverse =
        (before.reverse ++ [(key, value)]).map keyed := by
      simp [keyed]
    simp only [all, object_keyed]
  | cons next members ih =>
    obtain ⟨key, value⟩ := member
    obtain ⟨first, others⟩ := List.forall_mem_cons.mp each
    have first : Reads value (value.prettyAt level).toList := first
    obtain ⟨cost, le, reads⟩ := first.reads
    obtain ⟨costs, les, later⟩ := ih others
    rw [memberLines_cons_cons]
    refine ⟨costs + cost, ?_, fun frames text before budget outer rest => ?_⟩
    · simp only [List.length_append, List.length_cons]
      omega
    · rw [List.append_assoc, key?_keyLine, Option.map_some, resume, ← Nat.add_assoc,
        List.append_assoc, List.append_assoc]
      refine (reads _ _ [' '] (',' :: (memberLines level (next :: members) ++ _)) isSpace_blank
        (.comma _)).trans ?_
      have others := later frames text ((key, value) :: before) budget outer rest
      rw [List.reverse_cons, List.append_assoc, List.singleton_append] at others
      exact others

theorem reads_obj_nil : Reads (obj []) "\x7b\x7d".toList where
  starts := ⟨'\x7b', ['\x7d'], rfl, by decide, by decide⟩
  reads := by
    refine ⟨1, by decide, fun frames budget gap rest blank ends => ?_⟩
    show value? frames (budget + 1) (gap ++ '\x7b' :: '\x7d' :: rest) = _
    rw [value?_succ, open?, skip_append blank (by decide)]
    rfl

/-- **An object reads if the values of its members do.** -/
theorem reads_obj {level : Nat} {member : String × Json} {members : List (String × Json)}
    (each : ∀ m ∈ member :: members, Reads m.2 (m.2.prettyAt (level + 1)).toList) :
    Reads (obj (member :: members)) ((obj (member :: members)).prettyAt level).toList := by
  have text : ((obj (member :: members)).prettyAt level).toList =
      '\x7b' :: (memberLines (level + 1) (member :: members) ++
        ((newline level).toList ++ ['\x7d'])) := by
    simp only [prettyAt, memberLines, String.toList_append, List.append_assoc]
    rfl
  rw [text]
  obtain ⟨cost, le, reads⟩ := reads_members each
  refine ⟨⟨'\x7b', _, rfl, by decide, by decide⟩, cost + 1, ?_,
    fun frames budget gap rest blank ends => ?_⟩
  · simp only [List.length_append, List.length_cons]
    omega
  · rw [List.cons_append, List.append_assoc, List.append_assoc, List.singleton_append,
      ← Nat.add_assoc, value?_succ, open?, skip_append blank (by decide)]
    obtain ⟨cs, front⟩ :=
      skip_memberLines (level + 1) member members ((newline level).toList ++ '\x7d' :: rest)
    simp only [front]
    exact reads frames _ [] budget level rest

/-! ## 7. The round trip -/

/-- A value that is written as itself: its integers are of 64 bits, and it holds nothing as it was
    written. -/
inductive Plain : Json → Prop
  | null : Plain null
  | bool (value : Bool) : Plain (bool value)
  | int {value : Int} (low : -2 ^ 63 ≤ value) (high : value < 2 ^ 64) : Plain (int value)
  | str (text : String) : Plain (str text)
  | arr {items : List Json} (each : ∀ i ∈ items, Plain i) : Plain (arr items)
  | obj {members : List (String × Json)} (each : ∀ m ∈ members, Plain m.2) : Plain (obj members)

/-- The text of a value reads as the value, at every level. -/
theorem Plain.reads {value : Json} (plain : Plain value) (level : Nat) :
    Reads value (value.prettyAt level).toList := by
  induction plain generalizing level with
  | null => exact reads_null
  | bool value => exact reads_bool value
  | int low high => exact reads_int low high
  | str text => exact reads_str text
  | @arr items _ each =>
    cases items with
    | nil => exact reads_arr_nil
    | cons item items => exact reads_arr fun i mem => each i mem (level + 1)
  | @obj members _ each =>
    cases members with
    | nil => exact reads_obj_nil
    | cons member members => exact reads_obj fun m mem => each m mem (level + 1)

/-- **What is printed is read back.** -/
theorem read?_pretty {value : Json} (plain : Plain value) :
    read? (value.pretty ++ "\n") = some value := by
  obtain ⟨cost, le, reads⟩ := (plain.reads 0).reads
  have text : (value.pretty ++ "\n").toList = (value.prettyAt 0).toList ++ ['\n'] :=
    String.toList_append
  obtain ⟨budget, covered⟩ :
      ∃ budget, ((value.prettyAt 0).toList ++ ['\n']).length + 1 = budget + cost :=
    ⟨_, (Nat.sub_add_cancel (by rw [List.length_append]; omega)).symm⟩
  have whole : value? [] (budget + cost) ((value.prettyAt 0).toList ++ ['\n']) =
      some (value, ['\n']) := reads [] budget [] ['\n'] nofun (.line [])
  simp only [read?, text, covered, whole]
  rfl

end Json

end Rv32i
