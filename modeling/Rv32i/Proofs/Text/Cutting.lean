import Rv32i.Text.Pieces

/-!
# Cutting what was joined

What is written with separators in between comes back piece by piece:

* `lines_append` for lines, each ended by a line feed, `lines_append_newline` for texts with a line
  feed in between, and `lines_joinLines` for lines with line feeds in between only;
* `words_append` for words, each followed by at least one separator, and `words_eq_cons_iff`: a text
  comes apart into words in no other way;
* `cut_append` for the part before the first separator.
-/

namespace Rv32i.Text

/-! ## 1. Lines -/

theorem firstLine_append {line : List Char} (h : '\n' ∉ line) (rest : List Char) :
    firstLine (line ++ rest) = (line ++ (firstLine rest).1, (firstLine rest).2) := by
  induction line with
  | nil => rfl
  | cons c cs ih =>
    have hc : c ≠ '\n' := fun e => h (e ▸ List.mem_cons_self)
    have inner := ih fun m => h (List.mem_cons_of_mem _ m)
    unfold firstLine at inner ⊢
    rw [List.cons_append, List.foldr_cons, inner]
    exact if_neg hc

/-- **A line ends at its line feed**, and the lines after it are those of the rest. -/
theorem lines_append {line : List Char} (h : '\n' ∉ line) (rest : List Char) :
    lines (line ++ '\n' :: rest) = line :: lines rest := by
  have ends : firstLine ('\n' :: rest) = ([], lines rest) := rfl
  rw [lines, firstLine_append h, ends, List.append_nil]

/-- **A line feed ends a line**, wherever it stands. -/
theorem lines_append_newline (cs rest : List Char) :
    lines (cs ++ '\n' :: rest) = lines cs ++ lines rest := by
  induction cs with
  | nil => rfl
  | cons c cs ih =>
    by_cases newline : c = '\n'
    · rw [newline, List.cons_append, lines_newline, lines_newline, ih, List.cons_append]
    · obtain ⟨first, later⟩ : (firstLine (cs ++ '\n' :: rest)).1 = (firstLine cs).1 ∧
          (firstLine (cs ++ '\n' :: rest)).2 = (firstLine cs).2 ++ lines rest := List.cons.inj ih
      rw [List.cons_append, lines_cons newline, lines_cons newline, first, later, List.cons_append]

/-- There is one line more than line feeds. -/
theorem length_lines (cs : List Char) : (lines cs).length = cs.count '\n' + 1 := by
  induction cs with
  | nil => rfl
  | cons c cs ih =>
    by_cases newline : c = '\n'
    · rw [newline, lines_newline, List.length_cons, ih, List.count_cons_self]
    · rw [List.count_cons_of_ne newline, ← ih, lines_cons newline]
      rfl

/-- A text without a line feed is one line. -/
theorem lines_of_not_mem {line : List Char} (h : '\n' ∉ line) : lines line = [line] := by
  have whole := firstLine_append h []
  have none : firstLine [] = ([], []) := rfl
  rw [none, List.append_nil] at whole
  rw [lines, whole]

/-- No line has a line feed. -/
theorem not_mem_of_mem_lines {cs line : List Char} (mem : line ∈ lines cs) : '\n' ∉ line := by
  induction cs generalizing line with
  | nil =>
    rw [lines_nil, List.mem_singleton] at mem
    subst mem
    exact List.not_mem_nil
  | cons c cs ih =>
    by_cases newline : c = '\n'
    · rw [newline, lines_newline, List.mem_cons] at mem
      rcases mem with rfl | later
      · exact List.not_mem_nil
      · exact ih later
    · have first : (firstLine cs).1 ∈ lines cs := List.mem_cons_self
      rw [lines_cons newline, List.mem_cons] at mem
      rcases mem with rfl | later
      · rw [List.mem_cons]
        rintro (here | there)
        · exact newline here.symm
        · exact ih first there
      · exact ih (List.mem_cons_of_mem _ later)

/-- The text of some lines, with a line feed between each two. -/
def joinLines : List (List Char) → List Char
  | [] => []
  | [line] => line
  | line :: next :: rest => line ++ '\n' :: joinLines (next :: rest)

/-- **Lines that are joined are the lines of their text.** -/
theorem lines_joinLines {raws : List (List Char)} (nonempty : raws ≠ [])
    (plain : ∀ raw ∈ raws, '\n' ∉ raw) : lines (joinLines raws) = raws := by
  induction raws with
  | nil => exact absurd rfl nonempty
  | cons line rest ih =>
    have here := plain line List.mem_cons_self
    cases rest with
    | nil => exact lines_of_not_mem here
    | cons next rest =>
      rw [joinLines, lines_append here,
        ih (List.cons_ne_nil _ _) fun raw mem => plain raw (List.mem_cons_of_mem _ mem)]

/-- A text is what its lines are joined to. -/
theorem joinLines_lines (cs : List Char) : joinLines (lines cs) = cs := by
  have join (line : List Char) (c : Char) (rest : List (List Char)) :
      joinLines ((c :: line) :: rest) = c :: joinLines (line :: rest) := by
    cases rest <;> rfl
  induction cs with
  | nil => rfl
  | cons c cs ih =>
    by_cases newline : c = '\n'
    · rw [newline, lines_newline]
      exact congrArg ('\n' :: ·) ih
    · rw [lines_cons newline, join]
      exact congrArg (c :: ·) ih

/-! ## 2. Words -/

section

variable {sep : Char → Bool}

theorem firstWord_append {word : List Char} (plain : ∀ c ∈ word, sep c = false)
    (rest : List Char) :
    firstWord sep (word ++ rest) = (word ++ (firstWord sep rest).1, (firstWord sep rest).2) := by
  induction word with
  | nil => rfl
  | cons c cs ih =>
    have hc := plain c List.mem_cons_self
    have inner := ih fun d m => plain d (List.mem_cons_of_mem _ m)
    unfold firstWord at inner ⊢
    rw [List.cons_append, List.foldr_cons, inner, hc]
    rfl

/-- **A word ends at its separator**, and the words after it are those of the rest. -/
theorem words_append {word : List Char} (nonempty : word ≠ [])
    (plain : ∀ c ∈ word, sep c = false) {s : Char} (hs : sep s = true) (rest : List Char) :
    words sep (word ++ s :: rest) = word :: words sep rest := by
  have ends : firstWord sep (s :: rest) = ([], words sep rest) := by
    rw [words, firstWord, List.foldr_cons, hs]
    rfl
  obtain ⟨c, cs, rfl⟩ := List.exists_cons_of_ne_nil nonempty
  rw [words, firstWord_append plain, ends, List.append_nil]
  rfl

/-- A text without a separator is one word. -/
theorem words_of_plain {word : List Char} (nonempty : word ≠ [])
    (plain : ∀ c ∈ word, sep c = false) : words sep word = [word] := by
  obtain ⟨c, cs, rfl⟩ := List.exists_cons_of_ne_nil nonempty
  have whole := firstWord_append plain []
  have none : firstWord sep [] = ([], []) := rfl
  rw [none, List.append_nil] at whole
  rw [words, whole]
  rfl

/-- Separators in front change nothing. -/
theorem words_append_left {gap : List Char} (seps : ∀ c ∈ gap, sep c = true) (cs : List Char) :
    words sep (gap ++ cs) = words sep cs := by
  induction gap with
  | nil => rfl
  | cons c gap ih =>
    rw [List.cons_append, words_cons_sep (seps c List.mem_cons_self),
      ih fun d mem => seps d (List.mem_cons_of_mem _ mem)]

/-- Separators at the end change nothing. -/
theorem words_append_right {gap : List Char} (seps : ∀ c ∈ gap, sep c = true) (cs : List Char) :
    words sep (cs ++ gap) = words sep cs := by
  have nothing : firstWord sep gap = ([], []) := by
    induction gap with
    | nil => rfl
    | cons c gap ih =>
      have rest := ih fun d mem => seps d (List.mem_cons_of_mem _ mem)
      unfold firstWord at rest ⊢
      rw [List.foldr_cons, rest, seps c List.mem_cons_self]
      rfl
  have same : firstWord sep (cs ++ gap) = firstWord sep cs := by
    unfold firstWord at nothing ⊢
    rw [List.foldr_append, nothing]
  rw [words, same, words]

theorem words_eq_nil_iff {cs : List Char} : words sep cs = [] ↔ ∀ c ∈ cs, sep c = true := by
  refine ⟨fun none => ?_, fun seps => ?_⟩
  · induction cs with
    | nil => exact nofun
    | cons c cs ih =>
      cases here : sep c with
      | true =>
        rw [words_cons_sep here] at none
        exact List.forall_mem_cons.mpr ⟨here, ih none⟩
      | false =>
        have first := firstWord_append (List.forall_mem_singleton.mpr here) cs
        rw [List.singleton_append] at first
        rw [words, first] at none
        cases none
  · have all := words_append_right seps []
    rwa [List.nil_append] at all

/-- What separates the characters of a text is all that counts. -/
theorem words_congr {sep' : Char → Bool} {cs : List Char} (same : ∀ c ∈ cs, sep c = sep' c) :
    words sep cs = words sep' cs := by
  have first : firstWord sep cs = firstWord sep' cs := by
    induction cs with
    | nil => rfl
    | cons c cs ih =>
      have rest := ih fun d mem => same d (List.mem_cons_of_mem _ mem)
      unfold firstWord at rest ⊢
      rw [List.foldr_cons, List.foldr_cons, rest, same c List.mem_cons_self]
  rw [words, first, words]

theorem words_append_word {gap w rest : List Char} (seps : ∀ c ∈ gap, sep c = true)
    (nonempty : w ≠ []) (plain : ∀ c ∈ w, sep c = false) (ends : ∀ c ∈ rest.head?, sep c = true) :
    words sep (gap ++ (w ++ rest)) = w :: words sep rest := by
  rw [words_append_left seps]
  cases rest with
  | nil =>
    rw [List.append_nil, words_of_plain nonempty plain]
    rfl
  | cons s rest => rw [words_append nonempty plain (ends s rfl), words_cons_sep (ends s rfl)]

/-- **The first word of a text** stands behind separators, and before one or at the end. -/
theorem words_eq_cons_iff {cs w : List Char} {ws : List (List Char)} :
    words sep cs = w :: ws ↔ ∃ gap rest, cs = gap ++ (w ++ rest) ∧ (∀ c ∈ gap, sep c = true) ∧
      w ≠ [] ∧ (∀ c ∈ w, sep c = false) ∧ (∀ c ∈ rest.head?, sep c = true) ∧
      words sep rest = ws := by
  constructor
  · intro first
    induction cs with
    | nil => cases first
    | cons c cs ih =>
      cases here : sep c with
      | true =>
        rw [words_cons_sep here] at first
        obtain ⟨gap, rest, eq, seps, others⟩ := ih first
        exact ⟨c :: gap, rest, by rw [eq, List.cons_append],
          List.forall_mem_cons.mpr ⟨here, seps⟩, others⟩
      | false =>
        -- the word goes on as far as there are no separators
        have plain : ∀ d ∈ c :: cs.takeWhile (fun d => !sep d), sep d = false := by
          refine List.forall_mem_cons.mpr ⟨here, fun d mem => ?_⟩
          simpa using List.all_eq_true.mp (List.all_takeWhile (p := fun d => !sep d)) d mem
        have ends : ∀ d ∈ (cs.dropWhile fun d => !sep d).head?, sep d = true := by
          intro d mem
          have stop := List.head?_dropWhile_not (fun d => !sep d) cs
          rw [mem] at stop
          simpa using stop
        have whole : c :: cs = [] ++ ((c :: cs.takeWhile fun d => !sep d) ++
            cs.dropWhile fun d => !sep d) := by
          rw [List.nil_append, List.cons_append, List.takeWhile_append_dropWhile]
        rw [whole, words_append_word (List.forall_mem_nil _) (List.cons_ne_nil _ _) plain
          ends] at first
        cases first
        exact ⟨[], _, whole, nofun, List.cons_ne_nil _ _, plain, ends, rfl⟩
  · rintro ⟨gap, rest, rfl, seps, nonempty, plain, ends, rfl⟩
    exact words_append_word seps nonempty plain ends

end

/-! ## 3. The first separator -/

section

variable {p : Char → Bool}

theorem not_of_plain {part : List Char} (plain : ∀ c ∈ part, p c = false) :
    ∀ c ∈ part, (!p c) = true := by
  intro c m
  rw [plain c m]
  rfl

/-- **A part ends at the first separator.** -/
theorem cut_append {part : List Char} (plain : ∀ c ∈ part, p c = false) {s : Char}
    (hs : p s = true) (rest : List Char) : cut p (part ++ s :: rest) = some (part, rest) := by
  have drop : (s :: rest).dropWhile (fun c => !p c) = s :: rest :=
    List.dropWhile_cons_of_neg (by rw [hs]; exact nofun)
  have take : (s :: rest).takeWhile (fun c => !p c) = [] :=
    List.takeWhile_cons_of_neg (by rw [hs]; exact nofun)
  rw [cut, List.dropWhile_append_of_pos (not_of_plain plain), drop,
    List.takeWhile_append_of_pos (not_of_plain plain), take, List.append_nil]

/-- No separator stands before the first one. -/
theorem plain_of_cut {cs before after : List Char} (h : cut p cs = some (before, after)) :
    ∀ c ∈ before, p c = false := by
  unfold cut at h
  split at h
  · cases h
  · cases h
    intro c mem
    simpa using List.all_eq_true.mp (List.all_takeWhile (p := fun c => !p c)) c mem

theorem cut_of_plain {part : List Char} (plain : ∀ c ∈ part, p c = false) : cut p part = none := by
  have through : (part ++ []).dropWhile (fun c => !p c) = [] :=
    List.dropWhile_append_of_pos (not_of_plain plain)
  rw [List.append_nil] at through
  rw [cut, through]

end

end Rv32i.Text
