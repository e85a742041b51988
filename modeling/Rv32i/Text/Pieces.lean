/-!
# Cutting text into pieces

* `lines` cuts at every line feed and keeps the empty pieces, so a text with `k` line feeds has
  `k + 1` lines;
* `cut` splits at the first character of a kind and drops that character;
* `words` are the maximal runs of characters that are not separators.

Each works through the text once and from the right, so a long source needs no deep call stack.
-/

namespace Rv32i.Text

/-! ## 1. Lines -/

/-- The first line of a text and the lines after it. -/
def firstLine (cs : List Char) : List Char × List (List Char) :=
  cs.foldr (fun c (line, rest) =>
    if c = '\n' then ([], line :: rest) else (c :: line, rest)) ([], [])

/-- The lines of a text, cut at its line feeds. -/
def lines (cs : List Char) : List (List Char) :=
  let (line, rest) := firstLine cs
  line :: rest

@[simp] theorem lines_nil : lines [] = [[]] := rfl

@[simp] theorem lines_newline (cs : List Char) : lines ('\n' :: cs) = [] :: lines cs := rfl

theorem lines_cons {c : Char} (h : c ≠ '\n') (cs : List Char) :
    lines (c :: cs) = (c :: (firstLine cs).1) :: (firstLine cs).2 := by
  simp [lines, firstLine, h]

/-! ## 2. The first separator -/

/-- The text before and after the first character that `p` accepts, `none` if there is none. -/
def cut (p : Char → Bool) (cs : List Char) : Option (List Char × List Char) :=
  match cs.dropWhile (fun c => !p c) with
  | [] => none
  | _ :: rest => some (cs.takeWhile (fun c => !p c), rest)

/-- **`cut` drops exactly one character**: the parts and the separator make up the text. -/
theorem eq_of_cut {p : Char → Bool} {cs before after : List Char}
    (h : cut p cs = some (before, after)) : ∃ c, p c = true ∧ cs = before ++ c :: after := by
  unfold cut at h
  split at h
  · cases h
  · rename_i c rest hd
    cases h
    refine ⟨c, ?_, ?_⟩
    · have := List.head?_dropWhile_not (fun c => !p c) cs
      rw [hd] at this
      simpa using this
    · rw [← hd, List.takeWhile_append_dropWhile]

/-- What follows the first separator is shorter than the text. -/
theorem length_lt_of_cut {p : Char → Bool} {cs before after : List Char}
    (h : cut p cs = some (before, after)) : after.length < cs.length := by
  obtain ⟨c, -, rfl⟩ := eq_of_cut h
  simp
  omega

/-! ## 3. Words between separators -/

/-- The characters before the first separator, and the words after it. -/
def firstWord (sep : Char → Bool) (cs : List Char) : List Char × List (List Char) :=
  cs.foldr (fun c (word, rest) =>
    if sep c then ([], if word.isEmpty then rest else word :: rest) else (c :: word, rest)) ([], [])

/-- The maximal runs of characters that are not separators, in order. -/
def words (sep : Char → Bool) (cs : List Char) : List (List Char) :=
  let (word, rest) := firstWord sep cs
  if word.isEmpty then rest else word :: rest

@[simp] theorem words_nil (sep : Char → Bool) : words sep [] = [] := rfl

/-- A separator in front changes nothing. -/
theorem words_cons_sep {sep : Char → Bool} {c : Char} (h : sep c = true) (cs : List Char) :
    words sep (c :: cs) = words sep cs := by
  simp [words, firstWord, h]

end Rv32i.Text
