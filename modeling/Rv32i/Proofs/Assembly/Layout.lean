import Mathlib.Data.List.TakeWhile
import Rv32i.Proofs.Assembly.Relocation
import Rv32i.Proofs.Text.Blanks

/-!
# The layout of a source

Blanks, comments and the lines that labels stand on are layout. `Program.parse_layout` says what
becomes of the program of a source, or of its error, if the layout is changed.

* `SourceLine.code_comment`, `code_blanks`: what is added to a line and is not part of its code;
* `Program.ofLines_insert`: a line without code moves the lines behind it on;
* `SourceLine.peelLabels_code`: what is left of a line without its first label, and
  `Program.ofLines_of_names`: labels may stand on another line if they name the same slots.
-/

namespace Rv32i

open Text SourceLine

/-! ## 1. Lines and texts -/

/-- The source text with some lines. -/
def textOf (raws : List (List Char)) : String :=
  String.ofList (joinLines raws)

/-- Every text is that of its lines, so an edited source is said by its lines. -/
theorem textOf_lines (source : String) : textOf (lines source.toList) = source := by
  rw [textOf, joinLines_lines, String.ofList_toList]

/-- The number of a line when another one has been put behind line `k`. -/
def movedBehind (k number : Nat) : Nat :=
  if number ≤ k then number else number + 1

theorem movedBehind_injective (k : Nat) {m n : Nat} (same : movedBehind k m = movedBehind k n) :
    m = n := by
  unfold movedBehind at same
  split at same <;> split at same <;> omega

/-- The characters with a carriage return in front of every line feed. -/
def returned (cs : List Char) : List Char :=
  cs.flatMap fun c => if c = '\n' then ['\r', '\n'] else [c]

/-- The text with its lines ended by a carriage return and a line feed. -/
def withReturns (source : String) : String :=
  String.ofList (returned source.toList)

/-! ## 2. Lines with the same code -/

namespace SourceLine

theorem place_congr {raws others : List (List Char)} (same : others.map code = raws.map code)
    (number slot : Nat) : place [] number slot others = place [] number slot raws := by
  induction raws generalizing others number slot with
  | nil =>
    rw [List.map_eq_nil_iff.mp same]
  | cons raw raws ih =>
    obtain ⟨other, others, rfl⟩ := List.exists_cons_of_ne_nil
      (fun nil => nomatch (congrArg (List.map code) nil).symm.trans same)
    obtain ⟨here, later⟩ := List.cons.inj same
    have line : ofText number slot other = ofText number slot raw := by rw [ofText, here, ofText]
    rw [place_cons, place_cons, line, ih later]

/-- **A comment is not part of the code.** -/
theorem code_comment (raw comment : List Char) : code (raw ++ '#' :: comment) = code raw := by
  have stops : ('#' :: comment).takeWhile (· ≠ '#') = [] := rfl
  rw [code, code, List.takeWhile_append, stops, List.append_nil]
  split
  · rename_i whole
    rw [List.IsPrefix.eq_of_length (List.takeWhile_prefix _) whole]
  · rfl

/-- Blanks around a line are not part of the code. -/
theorem code_blanks {before after : List Char} (hb : Blank before) (ha : Blank after)
    (raw : List Char) : code (before ++ raw ++ after) = code raw := by
  have through {cs : List Char} (blank : Blank cs) : ∀ c ∈ cs, decide (c ≠ '#') = true :=
    fun c mem => decide_eq_true fun comment => blank.not_mem rfl (comment ▸ mem)
  have all : after.takeWhile (· ≠ '#') = after := List.takeWhile_eq_self_iff.mpr (through ha)
  rw [code, code, List.append_assoc, List.takeWhile_append_of_pos (through hb),
    List.takeWhile_append, all]
  split
  · rename_i whole
    rw [List.IsPrefix.eq_of_length (List.takeWhile_prefix _) whole, ← List.append_assoc,
      trim_blanks hb ha]
  · have one := trim_blanks hb .nil (raw.takeWhile (· ≠ '#'))
    rwa [List.append_nil] at one

end SourceLine

/-- A line with at most blanks and a comment on it. -/
structure Remark (raw : List Char) : Prop where
  line : '\n' ∉ raw
  blank : Blank (raw.takeWhile (· ≠ '#'))

theorem Remark.bare {raw : List Char} (remark : Remark raw) (number slot : Nat) :
    (ofText number slot raw).Bare :=
  bare_of_code (trim_of_blank remark.blank) number slot

/-! ## 3. Lines put in between -/

namespace SourceLine

/-- Lines behind the one that is put in are one line further on. -/
theorem map_movedBehind_after {k number : Nat} (behind : k < number) (slot : Nat)
    (raws : List (List Char)) :
    (place [] number slot raws).map (relocate (movedBehind k) 0) =
      place [] (number + 1) slot raws := by
  induction raws generalizing number slot with
  | nil => rfl
  | cons raw raws ih =>
    have next : movedBehind k number = number + 1 := if_neg (Nat.not_le_of_lt behind)
    have line : (ofText number slot raw).relocate (movedBehind k) 0 =
        ofText (number + 1) slot raw := by
      rw [← next]
      rfl
    have slots : (ofText (number + 1) slot raw).nextSlot = (ofText number slot raw).nextSlot := rfl
    rw [place_cons, place_cons, List.map_cons, line, ih (Nat.lt_succ_of_lt behind), slots]

/-- Lines before the one that is put in are not moved. -/
theorem map_movedBehind_before (raws : List (List Char)) :
    (place [] 1 0 raws).map (relocate (movedBehind raws.length) 0) = place [] 1 0 raws := by
  refine (List.map_congr_left fun line mem => ?_).trans (List.map_id _)
  obtain ⟨pre, raw, post, rfl, rfl⟩ := mem_place.mp mem
  have same : movedBehind (pre ++ raw :: post).length (1 + pre.length) = 1 + pre.length := by
    refine if_pos ?_
    rw [List.length_append, List.length_cons]
    omega
  show SourceLine.mk (movedBehind _ (1 + pre.length)) _ _ _ _ = _
  rw [same]
  rfl

end SourceLine

/-- **A line with at most a comment on it moves the lines behind it on** and does nothing else. -/
theorem Program.ofLines_insert {remark : List Char} (isRemark : Remark remark)
    (before after : List (List Char)) :
    ofLines (place [] 1 0 (before ++ remark :: after)) =
      ((ofLines (place [] 1 0 (before ++ after))).map
        (relocate (movedBehind before.length) 0)).mapError
          (ParseError.renumber (movedBehind before.length)) := by
  have injective (m n : Nat) : movedBehind before.length m = movedBehind before.length n → m = n :=
    movedBehind_injective before.length
  have bare := isRemark.bare (1 + before.length) (0 + before.countP bearsStatement)
  have slot : (ofText (1 + before.length) (0 + before.countP bearsStatement) remark).nextSlot =
      0 + before.countP bearsStatement := by
    rw [nextSlot, bare.statement]
    rfl
  have behind : before.length < 1 + before.length := by omega
  rw [← ofLines_relocate injective, place_append, place_cons, ofLines_bare bare, slot,
    place_append, List.map_append, map_movedBehind_before, map_movedBehind_after behind]

/-! ## 4. Labels on a line of their own -/

namespace SourceLine

/-- A character that no identifier has is in no text that is trimmed to one. -/
theorem not_mem_of_label {head : List Char} (label : isIdentifier (trim head) = true) {c : Char}
    (text : isBlank c = false) (foreign : isIdentifierStart c = false)
    (foreign' : isIdentifierRest c = false) : c ∉ head := by
  rw [← mem_trim text]
  intro mem
  cases name : trim head with
  | nil =>
    rw [name] at mem
    cases mem
  | cons first rest =>
    rw [name] at mem label
    obtain ⟨start, others⟩ := Bool.and_eq_true_iff.mp label
    rcases List.mem_cons.mp mem with rfl | later
    · cases foreign.symm.trans start
    · cases foreign'.symm.trans (List.all_eq_true.mp others c later)

/-- **A line whose first label is taken off** has the other labels and the same statement. -/
theorem peelLabels_code {head : List Char} (label : isIdentifier (trim head) = true)
    (rest : List Char) :
    peelLabels (code (head ++ ':' :: rest)) =
      { peelLabels (code rest) with
        labels := String.ofList (trim head) :: (peelLabels (code rest)).labels } := by
  have plain : ∀ c ∈ head, decide (c ≠ '#') = true := fun c mem =>
    decide_eq_true fun e => not_mem_of_label label rfl rfl rfl (e ▸ mem)
  have colon : ∀ c ∈ trimStart head, decide (c = ':') = false := fun c mem =>
    decide_eq_false fun e => not_mem_of_label label (c := ':') rfl rfl rfl
      ((List.dropWhile_sublist isBlank).mem (e ▸ mem))
  have cutted : cut (· = ':') (code (head ++ ':' :: rest)) =
      some (trimStart head, trimEnd (rest.takeWhile (· ≠ '#'))) := by
    have through : (':' :: rest).takeWhile (· ≠ '#') = ':' :: rest.takeWhile (· ≠ '#') := rfl
    rw [code, List.takeWhile_append_of_pos plain, through, trim_append_cons rfl]
    exact cut_append colon (decide_eq_true rfl) _
  rw [peelLabels]
  split
  · rename_i uncut
    cases uncut.symm.trans cutted
  · rename_i first last found
    cases found.symm.trans cutted
    dsimp only
    rw [trim_trimStart, if_pos label, trimStart_trimEnd, code]

/-- A line in its place has the label before its colon, and what the text behind the colon has. -/
theorem ofText_colon {head : List Char} (label : isIdentifier (trim head) = true)
    (rest : List Char) (number slot : Nat) :
    ofText number slot (head ++ ':' :: rest) =
      { ofText number slot rest with
        labels := String.ofList (trim head) :: (ofText number slot rest).labels } := by
  rw [ofText, peelLabels_code label]
  rfl

/-- A line with nothing behind its label has only the label. -/
theorem ofText_label {head : List Char} (label : isIdentifier (trim head) = true)
    (number slot : Nat) : ofText number slot (head ++ [':']) =
      ⟨number, slot, [String.ofList (trim head)], none, []⟩ := by
  rw [ofText_colon label, ofText]
  have nothing : peelLabels (code []) = ⟨[], none, []⟩ := peelLabels_of_plain List.not_mem_nil
  rw [nothing]

/-- The names of a line's labels, with the slot that they name. -/
theorem names_definitions (line : SourceLine) :
    line.definitions.map (fun d => (d.name, d.slot)) = line.labels.map (·, line.slot) := by
  refine List.ext_getElem? fun column => ?_
  rw [definitions, List.getElem?_map, List.getElem?_mapIdx, List.getElem?_map, Option.map_map]
  rfl

theorem names_ofLines (lines : List SourceLine) :
    (LabelTable.ofLines lines).defs.map (fun d => (d.name, d.slot)) =
      lines.flatMap fun line => line.labels.map (·, line.slot) := by
  rw [LabelTable.ofLines, List.map_flatMap]
  simp only [names_definitions]

end SourceLine

/-- The slot of a name depends on names and slots only. -/
theorem LabelTable.slot?_congr {labels other : LabelTable}
    (same : other.defs.map (fun d => (d.name, d.slot)) = labels.defs.map fun d => (d.name, d.slot))
    (name : String) : other.slot? name = labels.slot? name := by
  have listed (table : LabelTable) : table.slot? name =
      ((table.defs.map fun d => (d.name, d.slot)).find? (·.1 = name)).map (·.2) := by
    rw [List.find?_map, Option.map_map]
    rfl
  rw [listed, listed, same]

/-- **Labels may stand on other lines**, if they name the same slots. -/
theorem Program.ofLines_of_names {raws others : List (List Char)} {program : Program}
    (names : (tableOf others).defs.map (fun d => (d.name, d.slot)) =
      (tableOf raws).defs.map fun d => (d.name, d.slot))
    (labelled : (place [] 1 0 others).map badLabel = (place [] 1 0 raws).map badLabel)
    (statements : ∀ labels, (place [] 1 0 others).map (statement? labels) =
      (place [] 1 0 raws).map (statement? labels))
    (h : ofLines (place [] 1 0 raws) = .ok program) :
    ∃ other, ofLines (place [] 1 0 others) = .ok other ∧ other.records = program.records ∧
      ∀ name, other.labels.slot? name = program.labels.slot? name := by
  have slots := LabelTable.slot?_congr names
  obtain ⟨different, clean, results, each, rfl⟩ := (ofLines_eq_ok_iff (nodup_tableOf raws)).mp h
  refine ⟨⟨(results.filterMap id).toArray, tableOf others⟩, ?_, rfl, slots⟩
  refine (ofLines_eq_ok_iff (nodup_tableOf others)).mpr ⟨?_, ?_, results, ?_, rfl⟩
  · have firsts := congrArg (List.map Prod.fst) names
    rw [List.map_map, List.map_map] at firsts
    exact firsts ▸ different
  · intro line mem
    have listed : line.badLabel ∈ (place [] 1 0 raws).map badLabel :=
      labelled ▸ List.mem_map_of_mem mem
    obtain ⟨origin, placed, eq⟩ := List.mem_map.mp listed
    rw [← eq, clean origin placed]
  · have embeds : (tableOf raws).Embeds 0 (tableOf others) := by
      intro name slot known
      rw [slots, known]
      rfl
    have moved := map_statement?_of_embeds id embeds each
    rw [map_relocate_id, map_record_relocate_id] at moved
    rw [statements, moved]

/-- **A label may be put on a line of its own.** -/
theorem Program.ofLines_split {head rest : List Char} (label : isIdentifier (trim head) = true)
    {before after : List (List Char)} {program : Program}
    (h : ofLines (place [] 1 0 (before ++ (head ++ ':' :: rest) :: after)) = .ok program) :
    ∃ split, ofLines (place [] 1 0 (before ++ (head ++ [':']) :: rest :: after)) = .ok split ∧
      split.records = program.records.map (Record.relocate (movedBehind before.length) 0) ∧
      ∀ name, split.labels.slot? name = program.labels.slot? name := by
  -- first a blank line is put in, and then the label is moved to it
  have blank : Remark [] := ⟨List.not_mem_nil, Blank.nil⟩
  have inserted := ofLines_insert blank before ((head ++ ':' :: rest) :: after)
  rw [h] at inserted
  generalize slot : 0 + before.countP bearsStatement = s
  generalize number : 1 + before.length = n
  let line := ofText (n + 1) s rest
  have blankLine : ofText n s [] = ⟨n, s, [], none, []⟩ :=
    ofText_of_plain List.not_mem_nil List.not_mem_nil rfl n s
  have together : place [] 1 0 (before ++ [] :: (head ++ ':' :: rest) :: after) =
      place [] 1 0 before ++ ⟨n, s, [], none, []⟩ ::
        { line with labels := String.ofList (trim head) :: line.labels } ::
          place [] (n + 2) line.nextSlot after := by
    rw [place_append, number, slot, place_cons, blankLine, place_cons]
    show _ ++ _ :: ofText (n + 1) s _ :: place [] (n + 2) (ofText (n + 1) s _).nextSlot after = _
    rw [ofText_colon label]
    rfl
  have apart : place [] 1 0 (before ++ (head ++ [':']) :: rest :: after) =
      place [] 1 0 before ++ ⟨n, s, [String.ofList (trim head)], none, []⟩ :: line ::
        place [] (n + 2) line.nextSlot after := by
    rw [place_append, number, slot, place_cons, ofText_label label, place_cons]
    rfl
  have names : (tableOf (before ++ (head ++ [':']) :: rest :: after)).defs.map
        (fun d => (d.name, d.slot)) =
      (tableOf (before ++ [] :: (head ++ ':' :: rest) :: after)).defs.map
        fun d => (d.name, d.slot) := by
    rw [tableOf, tableOf, names_ofLines, names_ofLines, apart, together, List.flatMap_append,
      List.flatMap_append]
    rfl
  have labelled : (place [] 1 0 (before ++ (head ++ [':']) :: rest :: after)).map badLabel =
      (place [] 1 0 (before ++ [] :: (head ++ ':' :: rest) :: after)).map badLabel := by
    rw [apart, together]
    simp only [List.map_append, List.map_cons]
  have statements (labels : LabelTable) :
      (place [] 1 0 (before ++ (head ++ [':']) :: rest :: after)).map (statement? labels) =
        (place [] 1 0 (before ++ [] :: (head ++ ':' :: rest) :: after)).map
          (statement? labels) := by
    rw [apart, together, List.map_append, List.map_append]
    rfl
  obtain ⟨split, assembled, records, slots⟩ := ofLines_of_names names labelled statements inserted
  refine ⟨split, assembled, records, fun name => ?_⟩
  rw [slots]
  exact (LabelTable.slot?_relocate _ _ _ _).trans (Option.map_id' ..)

/-! ## 5. Texts -/

namespace Program

section

variable {source : String} {before after : List (List Char)}

/-- A text in which some lines have been exchanged for others. -/
theorem parse_between {old new : List (List Char)}
    (text : lines source.toList = before ++ (old ++ after)) (nonempty : new ≠ [])
    (plain : ∀ raw ∈ new, '\n' ∉ raw) :
    parse (textOf (before ++ (new ++ after))) =
      ofLines (place [] 1 0 (before ++ (new ++ after))) := by
  have all : ∀ raw ∈ before ++ (new ++ after), '\n' ∉ raw := by
    intro raw mem
    rcases List.mem_append.mp mem with mem | mem
    · exact not_mem_of_mem_lines (text ▸ List.mem_append_left _ mem)
    · rcases List.mem_append.mp mem with mem | mem
      · exact plain raw mem
      · exact not_mem_of_mem_lines
          (text ▸ List.mem_append_right _ (List.mem_append_right _ mem))
  have some : before ++ (new ++ after) ≠ [] := by simp [nonempty]
  rw [parse, assemble_eq_ofLines, textOf, String.toList_ofList, lines_joinLines some all]

/-- A line may be exchanged for another one with the same code. -/
theorem parse_exchange {raw other : List Char}
    (text : lines source.toList = before ++ raw :: after) (plain : '\n' ∉ other)
    (same : code other = code raw) :
    parse (textOf (before ++ other :: after)) = parse source := by
  have codes : (before ++ other :: after).map code = (before ++ raw :: after).map code := by
    rw [List.map_append, List.map_append, List.map_cons, List.map_cons, same]
  have exchanged : parse (textOf (before ++ other :: after)) =
      ofLines (place [] 1 0 (before ++ other :: after)) :=
    @parse_between _ _ _ [raw] [other] text nofun (List.forall_mem_singleton.mpr plain)
  rw [exchanged, place_congr codes, parse, assemble_eq_ofLines, text]

/-- A line that is put in moves the lines behind it on. -/
theorem parse_insert {remark : List Char} (text : lines source.toList = before ++ after)
    (isRemark : Remark remark) : parse (textOf (before ++ remark :: after)) =
      ((parse source).map (relocate (movedBehind before.length) 0)).mapError
        (ParseError.renumber (movedBehind before.length)) := by
  have inserted : parse (textOf (before ++ remark :: after)) =
      ofLines (place [] 1 0 (before ++ remark :: after)) :=
    @parse_between _ _ _ [] [remark] text nofun (List.forall_mem_singleton.mpr isRemark.line)
  rw [inserted, ofLines_insert isRemark, parse, assemble_eq_ofLines, text]

/-- A label that is put on a line of its own does so too. -/
theorem parse_split {head rest : List Char}
    (text : lines source.toList = before ++ (head ++ ':' :: rest) :: after)
    (label : isIdentifier (trim head) = true) {program : Program}
    (h : parse source = .ok program) :
    ∃ split, parse (textOf (before ++ (head ++ [':']) :: rest :: after)) = .ok split ∧
      split.records = program.records.map (Record.relocate (movedBehind before.length) 0) ∧
      ∀ name, split.labels.slot? name = program.labels.slot? name := by
  have whole : '\n' ∉ head ++ ':' :: rest :=
    not_mem_of_mem_lines (text ▸ List.mem_append_right _ List.mem_cons_self)
  have plain : ∀ raw ∈ [head ++ [':'], rest], '\n' ∉ raw := by simpa using whole
  have parsed : parse (textOf (before ++ (head ++ [':']) :: rest :: after)) =
      ofLines (place [] 1 0 (before ++ (head ++ [':']) :: rest :: after)) :=
    @parse_between _ _ _ [head ++ ':' :: rest] [head ++ [':'], rest] text nofun plain
  rw [parse, assemble_eq_ofLines, text] at h
  rw [parsed]
  exact ofLines_split label h

end

/-- Lines that end with a carriage return have the same code. -/
theorem map_code_returned {line : List Char} (plain : '\n' ∉ line) (cs : List Char) :
    (lines (line ++ returned cs)).map code = (lines (line ++ cs)).map code := by
  induction cs generalizing line with
  | nil => rfl
  | cons c cs ih =>
    by_cases newline : c = '\n'
    · have ends : line ++ returned (c :: cs) = (line ++ ['\r']) ++ '\n' :: returned cs := by
        rw [newline, List.append_assoc]
        rfl
      have plain' : '\n' ∉ line ++ ['\r'] := by simpa using plain
      have same : code (line ++ ['\r']) = code line :=
        code_blanks .nil (List.forall_mem_singleton.mpr rfl) line
      have later := @ih [] List.not_mem_nil
      rw [List.nil_append, List.nil_append] at later
      rw [ends, newline, lines_append plain', lines_append plain, List.map_cons, List.map_cons,
        same, later]
    · have stays : returned (c :: cs) = [c] ++ returned cs := by
        rw [returned, List.flatMap_cons, if_neg newline, returned]
      have plain' : '\n' ∉ line ++ [c] := by
        rw [List.mem_append, List.mem_singleton]
        exact fun mem => mem.elim plain fun e => newline e.symm
      rw [stays, ← List.append_assoc, ih plain', List.append_assoc]
      rfl

theorem parse_withReturns (source : String) : parse (withReturns source) = parse source := by
  have codes := @map_code_returned [] List.not_mem_nil source.toList
  rw [List.nil_append, List.nil_append] at codes
  rw [parse, parse, assemble_eq_ofLines, assemble_eq_ofLines, withReturns, String.toList_ofList,
    place_congr codes]

/-- **Layout does not change a program.**
    * A line with at most a comment on it, put behind any line, moves the lines behind it on, in the
      program and in an error.
    * A comment at the end of a line, blanks around it or a carriage return at the end of every
      line change nothing.
    * In a source that assembles, the first label of a line may stand on a line of its own. -/
theorem parse_layout (source : String) :
    (∀ before after remark, lines source.toList = before ++ after → Remark remark →
      parse (textOf (before ++ remark :: after)) =
        ((parse source).map (relocate (movedBehind before.length) 0)).mapError
          (ParseError.renumber (movedBehind before.length))) ∧
    (∀ before raw after comment, lines source.toList = before ++ raw :: after → '\n' ∉ comment →
      parse (textOf (before ++ (raw ++ '#' :: comment) :: after)) = parse source) ∧
    (∀ before raw after left right, lines source.toList = before ++ raw :: after →
      Blank left → Blank right → '\n' ∉ left → '\n' ∉ right →
      parse (textOf (before ++ (left ++ raw ++ right) :: after)) = parse source) ∧
    parse (withReturns source) = parse source ∧
    ∀ before head rest after program,
      lines source.toList = before ++ (head ++ ':' :: rest) :: after →
      isIdentifier (trim head) = true → parse source = .ok program →
      ∃ split, parse (textOf (before ++ (head ++ [':']) :: rest :: after)) = .ok split ∧
        split.records = program.records.map (Record.relocate (movedBehind before.length) 0) ∧
        ∀ name, split.labels.slot? name = program.labels.slot? name := by
  have plain {before after : List (List Char)} {raw : List Char}
      (text : lines source.toList = before ++ raw :: after) : '\n' ∉ raw :=
    not_mem_of_mem_lines (text ▸ List.mem_append_right _ List.mem_cons_self)
  refine ⟨fun before after remark text isRemark => parse_insert text isRemark,
    fun before raw after comment text line => ?_,
    fun before raw after left right text hl hr lineLeft lineRight => ?_,
    parse_withReturns source,
    fun before head rest after program text label h => parse_split text label h⟩
  · have both : '\n' ∉ raw ++ '#' :: comment := by
      simp [plain text, line]
    exact parse_exchange text both (code_comment raw comment)
  · have all : '\n' ∉ left ++ raw ++ right := by
      simp [plain text, lineLeft, lineRight]
    exact parse_exchange text all (code_blanks hl hr raw)

/-- A rejected source with another line in front of it, with a comment and with blanks, and one that
    assembles with its label on a line of its own. -/
theorem parse_layout_duplicate_and_branch :
    parse " # two\non:\non: hlt" = .error ⟨3, .duplicateLabel "on" 2⟩ ∧
    parse "on:#: on:\non: hlt" = .error ⟨2, .duplicateLabel "on" 1⟩ ∧
    parse "on:\n\u2003 on: hlt\t" = .error ⟨2, .duplicateLabel "on" 1⟩ ∧
    ∃ split, parse "again:\n beq x1, x2, again\nhlt" = .ok split ∧
      split.records.map (fun r => (r.index, r.line, r.label)) =
        #[(0, 2, some "again"), (1, 3, none)] ∧
      split.labels.slot? "again" = some 0 := by
  have duplicate : parse "on:\non: hlt" = .error ⟨2, .duplicateLabel "on" 1⟩ :=
    eq_error_of_errorOf? (by decide +kernel)
  have text : lines "on:\non: hlt".toList = ["on:".toList, "on: hlt".toList] := by decide +kernel
  have remark : Remark " # two".toList := ⟨by decide, by decide +kernel⟩
  obtain ⟨insert, comment, blanks, -, -⟩ := parse_layout "on:\non: hlt"
  have inserted := insert [] _ _ text remark
  have commented := comment [] _ ["on: hlt".toList] ": on:".toList text (by decide)
  have surrounded := blanks ["on:".toList] _ [] "\u2003 ".toList "\t".toList text
    (by decide +kernel) (by decide +kernel) (by decide) (by decide)
  have branch : parse "again: beq x1, x2, again\nhlt" = .ok
      ⟨#[⟨.beq, .sb, 0, 1, "beq x1, x2, again", none, some 1, some 2, some 0, some "again"⟩,
        ⟨.hlt, .hlt, 1, 2, "hlt", none, none, none, none, none⟩], ⟨[⟨"again", 0, 1, 0⟩]⟩⟩ :=
    eq_ok_of_toOption (by decide +kernel)
  obtain ⟨-, -, -, -, apart⟩ := parse_layout "again: beq x1, x2, again\nhlt"
  obtain ⟨split, parsed, records, slots⟩ := apart [] "again".toList " beq x1, x2, again".toList
    ["hlt".toList] _ (by decide +kernel) (by decide) branch
  have texts :
      textOf ([] ++ " # two".toList :: ["on:".toList, "on: hlt".toList]) =
        " # two\non:\non: hlt" ∧
      textOf ([] ++ ("on:".toList ++ '#' :: ": on:".toList) :: ["on: hlt".toList]) =
        "on:#: on:\non: hlt" ∧
      textOf (["on:".toList] ++ ("\u2003 ".toList ++ "on: hlt".toList ++ "\t".toList) :: []) =
        "on:\n\u2003 on: hlt\t" ∧
      textOf ([] ++ ("again".toList ++ [':']) :: " beq x1, x2, again".toList :: ["hlt".toList]) =
        "again:\n beq x1, x2, again\nhlt" := by decide +kernel
  rw [texts.1, duplicate] at inserted
  rw [texts.2.1, duplicate] at commented
  rw [texts.2.2.1, duplicate] at surrounded
  rw [texts.2.2.2] at parsed
  exact ⟨inserted, commented, surrounded, split, parsed, by rw [records]; decide +kernel,
    (slots "again").trans (by decide)⟩

end Program

end Rv32i
