import Rv32i.Text.Blank

/-!
# Blanks around a text

* `exists_trim`: a text is what trimming leaves of it, with blanks on both sides;
* `trim_blanks`: blanks around a text make no difference to what trimming leaves, and
  `trimStart_trimEnd`: neither does the side that is trimmed first;
* `trim_of_blank`: nothing is left of blanks, and `trim_eq_self`: nothing is trimmed off a text that
  neither starts nor ends with one;
* `trim_append_cons`: what stands around a character that is no blank is trimmed on the far side.
-/

namespace Rv32i.Text

/-- The text has nothing but blanks. -/
def Blank (cs : List Char) : Prop :=
  ∀ c ∈ cs, isBlank c = true

instance (cs : List Char) : Decidable (Blank cs) :=
  decidable_of_iff (cs.all isBlank = true) List.all_eq_true

theorem Blank.nil : Blank [] :=
  nofun

theorem Blank.reverse {cs : List Char} (h : Blank cs) : Blank cs.reverse :=
  fun c mem => h c (List.mem_reverse.mp mem)

theorem Blank.append {cs ds : List Char} (h : Blank cs) (k : Blank ds) : Blank (cs ++ ds) :=
  fun c mem => (List.mem_append.mp mem).elim (h c) (k c)

theorem Blank.not_mem {cs : List Char} (h : Blank cs) {c : Char} (text : isBlank c = false) :
    c ∉ cs := by
  intro mem
  rw [h c mem] at text
  cases text

/-! ## 1. One side -/

theorem dropWhile_eq_self {p : Char → Bool} {cs : List Char} (h : ∀ c ∈ cs.head?, p c = false) :
    cs.dropWhile p = cs := by
  cases cs with
  | nil => rfl
  | cons c cs => exact List.dropWhile_cons_of_neg (by rw [h c rfl]; exact nofun)

theorem trimStart_append {before : List Char} (h : Blank before) (cs : List Char) :
    trimStart (before ++ cs) = trimStart cs :=
  List.dropWhile_append_of_pos h

theorem trimEnd_append {after : List Char} (h : Blank after) (cs : List Char) :
    trimEnd (cs ++ after) = trimEnd cs := by
  rw [trimEnd, List.reverse_append, List.dropWhile_append_of_pos h.reverse, trimEnd]

theorem exists_trimStart (cs : List Char) : ∃ before, Blank before ∧ cs = before ++ trimStart cs :=
  ⟨cs.takeWhile isBlank, List.all_eq_true.mp List.all_takeWhile,
    List.takeWhile_append_dropWhile.symm⟩

theorem exists_trimEnd (cs : List Char) : ∃ after, Blank after ∧ cs = trimEnd cs ++ after := by
  obtain ⟨before, blank, eq⟩ := exists_trimStart cs.reverse
  refine ⟨before.reverse, blank.reverse, ?_⟩
  have back := congrArg List.reverse eq
  rwa [List.reverse_reverse, List.reverse_append] at back

theorem trimEnd_cons (c : Char) (cs : List Char) :
    trimEnd (c :: cs) = if (trimEnd cs).isEmpty && isBlank c then [] else c :: trimEnd cs := by
  rw [trimEnd, List.reverse_cons, List.dropWhile_append, trimEnd, List.isEmpty_reverse]
  cases rest : (cs.reverse.dropWhile isBlank).isEmpty with
  | true =>
    rw [if_pos rfl, List.isEmpty_iff.mp rest, List.dropWhile_cons]
    cases isBlank c <;> rfl
  | false =>
    rw [if_neg Bool.false_ne_true, List.reverse_append]
    rfl

/-- Trimming the end leaves text, and what stands before it, alone. -/
theorem trimEnd_append_cons {c : Char} (text : isBlank c = false) (before after : List Char) :
    trimEnd (before ++ c :: after) = before ++ c :: trimEnd after := by
  induction before with
  | nil =>
    rw [List.nil_append, List.nil_append, trimEnd_cons, text, Bool.and_false]
    rfl
  | cons d before ih =>
    rw [List.cons_append, trimEnd_cons, ih]
    refine if_neg ?_
    cases before <;> exact nofun

/-- Trimming the start leaves text, and what stands behind it, alone. -/
theorem trimStart_append_cons {c : Char} (text : isBlank c = false) (before after : List Char) :
    trimStart (before ++ c :: after) = trimStart before ++ c :: after := by
  have here : (c :: after).dropWhile isBlank = c :: after :=
    List.dropWhile_cons_of_neg (by rw [text]; exact nofun)
  rw [trimStart, List.dropWhile_append, here, trimStart]
  split
  · rename_i empty
    rw [List.isEmpty_iff.mp empty]
    rfl
  · rfl

/-! ## 2. Both sides -/

/-- **It does not matter which side is trimmed first.** -/
theorem trimStart_trimEnd (cs : List Char) : trimStart (trimEnd cs) = trim cs := by
  induction cs with
  | nil => rfl
  | cons c cs ih =>
    cases blank : isBlank c with
    | true =>
      have behind : trim (c :: cs) = trim cs := by
        rw [trim, trim, trimStart, List.dropWhile_cons_of_pos blank]
        rfl
      rw [behind, ← ih, trimEnd_cons, blank, Bool.and_true]
      cases rest : (trimEnd cs).isEmpty with
      | true =>
        rw [if_pos rfl, List.isEmpty_iff.mp rest]
      | false =>
        rw [if_neg Bool.false_ne_true, trimStart, List.dropWhile_cons_of_pos blank]
        rfl
    | false =>
      have kept (ds : List Char) : trimStart (c :: ds) = c :: ds :=
        List.dropWhile_cons_of_neg (by rw [blank]; exact nofun)
      rw [trim, kept, trimEnd_cons, blank, Bool.and_false, if_neg Bool.false_ne_true, kept]

/-- **Blanks around a text make no difference.** -/
theorem trim_blanks {before after : List Char} (hb : Blank before) (ha : Blank after)
    (cs : List Char) : trim (before ++ cs ++ after) = trim cs := by
  rw [← trimStart_trimEnd, trimEnd_append ha, trimStart_trimEnd, trim, trimStart_append hb, trim]

theorem trimEnd_of_blank {cs : List Char} (h : Blank cs) : trimEnd cs = [] := by
  have all := trimEnd_append h []
  rwa [List.nil_append] at all

theorem trim_of_blank {cs : List Char} (h : Blank cs) : trim cs = [] := by
  have all := trim_blanks h .nil []
  rwa [List.append_nil, List.append_nil] at all

/-- **A text with no blank at either end is not trimmed.** -/
theorem trim_eq_self {cs : List Char} (first : ∀ c ∈ cs.head?, isBlank c = false)
    (last : ∀ c ∈ cs.getLast?, isBlank c = false) : trim cs = cs := by
  have reversed : ∀ c ∈ cs.reverse.head?, isBlank c = false := by
    rw [List.head?_reverse]
    exact last
  rw [trim, trimStart, dropWhile_eq_self first, trimEnd, dropWhile_eq_self reversed,
    List.reverse_reverse]

theorem trim_trimStart (cs : List Char) : trim (trimStart cs) = trim cs := by
  obtain ⟨before, blank, eq⟩ := exists_trimStart cs
  have same := trim_blanks blank .nil (trimStart cs)
  rw [List.append_nil, ← eq] at same
  exact same.symm

theorem trim_trimEnd (cs : List Char) : trim (trimEnd cs) = trim cs := by
  obtain ⟨after, blank, eq⟩ := exists_trimEnd cs
  have same := trim_blanks .nil blank (trimEnd cs)
  rw [List.nil_append, ← eq] at same
  exact same.symm

theorem trim_append_cons {c : Char} (text : isBlank c = false) (before after : List Char) :
    trim (before ++ c :: after) = trimStart before ++ c :: trimEnd after := by
  rw [trim, trimStart_append_cons text, trimEnd_append_cons text]

/-- **A text is what trimming leaves of it**, with blanks around. -/
theorem exists_trim (cs : List Char) :
    ∃ before after, Blank before ∧ Blank after ∧ cs = before ++ trim cs ++ after := by
  obtain ⟨before, hb, start⟩ := exists_trimStart cs
  obtain ⟨after, ha, ends⟩ := exists_trimEnd (trimStart cs)
  refine ⟨before, after, hb, ha, ?_⟩
  rw [List.append_assoc, trim, ← ends, ← start]

/-- A text without blanks is not trimmed on the near side. -/
theorem trim_append {cs : List Char} (nonempty : cs ≠ []) (text : ∀ c ∈ cs, isBlank c = false)
    (after : List Char) : trim (cs ++ after) = cs ++ trimEnd after := by
  obtain ⟨init, last, rfl⟩ := (List.eq_nil_or_concat cs).resolve_left nonempty
  rw [List.concat_eq_append] at text ⊢
  have start : trimStart init = init := dropWhile_eq_self fun c first =>
    text c (List.mem_append_left _ (List.mem_of_head? first))
  have ends := text last (List.mem_append_right _ List.mem_cons_self)
  rw [List.append_assoc, List.singleton_append, trim_append_cons ends, start, List.append_assoc,
    List.singleton_append]

theorem trim_trim (cs : List Char) : trim (trim cs) = trim cs := by
  obtain ⟨before, after, hb, ha, eq⟩ := exists_trim cs
  have same := trim_blanks hb ha (trim cs)
  rw [← eq] at same
  exact same.symm

/-- What is not trimmed off is in the text only if it is left. -/
theorem mem_trim {cs : List Char} {c : Char} (text : isBlank c = false) : c ∈ trim cs ↔ c ∈ cs := by
  obtain ⟨before, after, hb, ha, eq⟩ := exists_trim cs
  refine ⟨fun mem => ?_, fun mem => ?_⟩
  · rw [eq]
    exact List.mem_append_left _ (List.mem_append_right _ mem)
  · rw [eq, List.mem_append, List.mem_append] at mem
    rcases mem with (mem | mem) | mem
    · exact absurd mem (hb.not_mem text)
    · exact mem
    · exact absurd mem (ha.not_mem text)

end Rv32i.Text
