import Rv32i.Proofs.Assembly.Relocation

/-!
# Sources behind each other

A source may be put behind another one. Offsets to labels are relative, so its statements mean the
same there; only their slots and the numbers of their lines are further on.

* `Program.ofLines_append`: so it is for lines, and `Program.parse_append`: for source texts;
* `exists_lines_of_ended`: a text that is empty or ends with a line feed ends no line of the text
  behind it.
-/

namespace Rv32i

open Text SourceLine

/-! ## 1. One program behind the other -/

/-- The program with another one behind it, whose source starts so many lines further on. -/
def Program.followedBy (program : Program) (lines : Nat) (next : Program) : Program :=
  let moved := next.relocate (· + lines) program.size
  ⟨program.records ++ moved.records, ⟨program.labels.defs ++ moved.labels.defs⟩⟩

namespace LabelTable

theorem slot?_append (before after : List LabelDef) (name : String) :
    slot? ⟨before ++ after⟩ name = (slot? ⟨before⟩ name).or (slot? ⟨after⟩ name) := by
  rw [slot?, slot?, slot?, find?, find?, find?, List.find?_append, Option.map_or]

/-- Labels behind others are all known further on, if none of them is known before. -/
theorem embeds_append {labels other : LabelTable}
    (disjoint : ∀ d ∈ labels.defs, ∀ e ∈ other.defs, d.name ≠ e.name) (newLine : Nat → Nat)
    (distance : Nat) :
    other.Embeds distance ⟨labels.defs ++ (other.relocate newLine distance).defs⟩ := by
  intro name slot known
  obtain ⟨e, found, -⟩ := Option.map_eq_some_iff.mp known
  have unknown : labels.slot? name = none := by
    refine Option.map_eq_none_iff.mpr (List.find?_eq_none.mpr fun d mem same => ?_)
    have apart := disjoint d mem e (List.mem_of_find?_eq_some found)
    rw [name_of_find? found] at apart
    exact apart (of_decide_eq_true same)
  rw [slot?_append, unknown, Option.none_or, slot?_relocate, known]
  rfl

theorem embeds_before (labels : LabelTable) (after : List LabelDef) :
    labels.Embeds 0 ⟨labels.defs ++ after⟩ := by
  intro name slot known
  rw [slot?_append, known]
  rfl

end LabelTable

theorem Program.slot?_followedBy (program : Program) (lines : Nat) (next : Program)
    (name : String) : (program.followedBy lines next).labels.slot? name =
      (program.labels.slot? name).or ((next.labels.slot? name).map (· + program.size)) := by
  have moved := LabelTable.slot?_relocate (· + lines) program.size next.labels name
  rw [← moved]
  exact LabelTable.slot?_append _ _ name

/-! ## 2. Lines behind lines -/

namespace Program

theorem size_of_ofLines {raws : List (List Char)} {program : Program}
    (h : ofLines (place [] 1 0 raws) = .ok program) :
    program.size = raws.countP bearsStatement := by
  obtain ⟨records, collected, same⟩ := bind_eq_ok.mp h
  obtain ⟨results, each, same'⟩ := bind_eq_ok.mp collected
  cases same
  cases same'
  exact length_of_place (mapM_eq_ok_iff.mp each)

/-- **Lines that assemble on their own assemble behind each other**, if they define different
    labels: those behind only have their places further on. -/
theorem ofLines_append {before after : List (List Char)} {program next : Program}
    (hp : ofLines (place [] 1 0 before) = .ok program)
    (hq : ofLines (place [] 1 0 after) = .ok next)
    (disjoint : ∀ d ∈ program.labels.defs, ∀ e ∈ next.labels.defs, d.name ≠ e.name) :
    ofLines (place [] 1 0 (before ++ after)) = .ok (program.followedBy before.length next) := by
  have size := size_of_ofLines hp
  obtain ⟨names, labelled, results, statements, rfl⟩ :=
    (ofLines_eq_ok_iff (nodup_tableOf before)).mp hp
  obtain ⟨names', labelled', results', statements', rfl⟩ :=
    (ofLines_eq_ok_iff (nodup_tableOf after)).mp hq
  generalize distance : before.countP bearsStatement = count at size
  have behind : place [] 1 0 (before ++ after) = place [] 1 0 before ++
      (place [] 1 0 after).map (SourceLine.relocate (· + before.length) count) := by
    rw [place_append, distance, place_relocate]
  have table : LabelTable.ofLines (place [] 1 0 (before ++ after)) = ⟨(tableOf before).defs ++
      ((tableOf after).relocate (· + before.length) count).defs⟩ := by
    rw [behind, ← SourceLine.ofLines_relocate]
    exact congrArg LabelTable.mk List.flatMap_append
  refine (ofLines_eq_ok_iff (nodup_tableOf (before ++ after))).mpr
    ⟨?_, ?_, results ++ results'.map (Option.map (Record.relocate (· + before.length) count)),
      ?_, ?_⟩
  · have named : ((tableOf after).relocate (· + before.length) count).defs.map LabelDef.name =
        (tableOf after).defs.map LabelDef.name := List.map_map
    rw [table, List.map_append, named]
    refine List.nodup_append.mpr ⟨names, names', fun name here name' there => ?_⟩
    obtain ⟨d, mem, rfl⟩ := List.mem_map.mp here
    obtain ⟨e, mem', rfl⟩ := List.mem_map.mp there
    exact disjoint d mem e mem'
  · rw [behind]
    intro line mem
    rcases List.mem_append.mp mem with mem | mem
    · exact labelled line mem
    · obtain ⟨origin, placed, rfl⟩ := List.mem_map.mp mem
      exact labelled' origin placed
  · have first := map_statement?_of_embeds id
      ((tableOf before).embeds_before
        ((tableOf after).relocate (· + before.length) count).defs) statements
    have second := map_statement?_of_embeds (· + before.length)
      (LabelTable.embeds_append disjoint (· + before.length) count) statements'
    rw [map_relocate_id, map_record_relocate_id] at first
    rw [table, behind, List.map_append, first, second, List.map_append]
  · rw [List.filterMap_append, filterMap_relocate, table, followedBy, size, relocate]
    simp

end Program

/-! ## 3. Texts behind texts -/

/-- A text that ends with a line feed ends no line of the text behind it, and neither does one
    that is empty. -/
theorem exists_lines_of_ended {a : String} (ended : a = "" ∨ ∃ start, a = start ++ "\n") :
    ∃ raws, raws.length = a.toList.count '\n' ∧ lines a.toList = raws ++ [[]] ∧
      ∀ b : String, lines (a ++ b).toList = raws ++ lines b.toList := by
  rcases ended with rfl | ⟨start, rfl⟩
  · refine ⟨[], rfl, rfl, fun b => ?_⟩
    rw [String.toList_append]
    rfl
  · have chars : (start ++ "\n").toList = start.toList ++ ['\n'] := String.toList_append
    refine ⟨lines start.toList, ?_, ?_, fun b => ?_⟩
    · rw [length_lines, chars, List.count_append]
      rfl
    · rw [chars, lines_append_newline]
      rfl
    · rw [String.toList_append, chars, List.append_assoc]
      exact lines_append_newline _ _

namespace Program

/-- **A source may be put behind another one**, if that is empty or ends with a line feed and
    defines other labels: its records and labels are the same, further on. -/
theorem parse_append {a b : String} {program next : Program}
    (ended : a = "" ∨ ∃ start, a = start ++ "\n") (hp : parse a = .ok program)
    (hq : parse b = .ok next)
    (disjoint : ∀ d ∈ program.labels.defs, ∀ e ∈ next.labels.defs, d.name ≠ e.name) :
    parse (a ++ b) = .ok (program.followedBy (a.toList.count '\n') next) ∧
      ∀ name, (program.followedBy (a.toList.count '\n') next).labels.slot? name =
        (program.labels.slot? name).or ((next.labels.slot? name).map (· + program.size)) := by
  refine ⟨?_, slot?_followedBy _ _ _⟩
  obtain ⟨raws, length, own, both⟩ := exists_lines_of_ended ended
  -- behind its last line feed there is a line with nothing on it
  have last : place [] (1 + raws.length) (0 + raws.countP bearsStatement) [[]] =
    [ofText (1 + raws.length) (0 + raws.countP bearsStatement) []] := rfl
  rw [parse, assemble_eq_ofLines, own, place_append, last, ofLines_bare (bare_of_code rfl _ _),
    List.append_nil] at hp
  rw [parse, assemble_eq_ofLines] at hq ⊢
  rw [both, ← length]
  exact ofLines_append hp hq disjoint

/-- The label at the end of the first source names the first statement of the second, whose own
    labels are two slots and three lines further on. -/
theorem parse_append_trailing_label : ∃ program next : Program,
    parse "beq x1, x2, end # 1\naddi x1, x1, 1\nend:\n" = .ok program ∧
    parse "back: sub x3, x1, x2\n\nbne x3, x0, back" = .ok next ∧
    parse ("beq x1, x2, end # 1\naddi x1, x1, 1\nend:\n" ++
      "back: sub x3, x1, x2\n\nbne x3, x0, back") = .ok (program.followedBy 3 next) ∧
    (program.followedBy 3 next).labels.slot? "end" = some 2 ∧
    (program.followedBy 3 next).labels.slot? "back" = some 2 ∧
    (program.followedBy 3 next).records.map (fun r => (r.index, r.line, r.imm, r.label)) =
      #[(0, 1, some 8, some "end"), (1, 2, some 1, none), (2, 4, none, none),
        (3, 6, some (-4), some "back")] := by
  let program : Program :=
    ⟨#[⟨.beq, .sb, 0, 1, "beq x1, x2, end", none, some 1, some 2, some 8, some "end"⟩,
      ⟨.addi, .i, 1, 2, "addi x1, x1, 1", some 1, some 1, none, some 1, none⟩],
      ⟨[⟨"end", 2, 3, 0⟩]⟩⟩
  let next : Program :=
    ⟨#[⟨.sub, .r, 0, 1, "sub x3, x1, x2", some 3, some 1, some 2, none, none⟩,
      ⟨.bne, .sb, 1, 3, "bne x3, x0, back", none, some 3, some 0, some (-4), some "back"⟩],
      ⟨[⟨"back", 0, 1, 0⟩]⟩⟩
  have hp : parse "beq x1, x2, end # 1\naddi x1, x1, 1\nend:\n" = .ok program :=
    eq_ok_of_toOption (by decide +kernel)
  have hq : parse "back: sub x3, x1, x2\n\nbne x3, x0, back" = .ok next :=
    eq_ok_of_toOption (by decide +kernel)
  have disjoint : ∀ d ∈ program.labels.defs, ∀ e ∈ next.labels.defs, d.name ≠ e.name := by
    decide
  obtain ⟨parsed, slots⟩ := parse_append
    (.inr ⟨"beq x1, x2, end # 1\naddi x1, x1, 1\nend:", by decide +kernel⟩) hp hq disjoint
  exact ⟨program, next, hp, hq, parsed, (slots "end").trans (by decide),
    (slots "back").trans (by decide), by decide +kernel⟩

end Program

end Rv32i
