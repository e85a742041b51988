import Rv32i.Proofs.Assembly.LabelTarget
import Rv32i.Proofs.Checked.Operand

/-!
# Programs with machine integers

Lines and statements are counted in 64 bits. How far they get depends on the source, which lies in
memory and so do its lines while it is assembled; `Allocates` says that both find room there.

* `mem_lines`: the lines of a source are pieces of it, and `length_lines_le`: no more than its
  characters and one;
* `place_eq`: counting lines and statements does not overflow;
* `parse_eq`: parsing a source that finds room never aborts.
-/

namespace Rv32i.Checked

open Text SourceLine

/-! ## 1. Sources that find room -/

/-- The line has a label or a statement, or what should be a label. Other lines are not kept. -/
def isKept (raw : List Char) : Bool :=
  let peeled := peelLabels (code raw)
  !(peeled.statement.isEmpty && peeled.labels.isEmpty && peeled.badLabel.isNone)

/-- A source and the lines that are kept of it find room in memory. No object takes `2 ^ 63` bytes,
    and a line that is kept takes 64: its number, the list of its labels, what should be one, and
    its statement. -/
structure Allocates (source : String) : Prop where
  ofText : byteLength source.toList < 2 ^ 63
  ofLines : 64 * (lines source.toList).countP isKept < 2 ^ 63

/-! ## 2. Pieces of a source -/

theorem length_lines_le (cs : List Char) : (lines cs).length ≤ cs.length + 1 := by
  rw [length_lines]
  exact Nat.succ_le_succ List.count_le_length

/-- The first line and every later one is a piece of the text. -/
theorem mem_lines {cs line : List Char} (mem : line ∈ lines cs) : List.Sublist line cs := by
  induction cs generalizing line with
  | nil =>
    rw [lines_nil, List.mem_singleton] at mem
    subst mem
    exact .slnil
  | cons c cs ih =>
    by_cases newline : c = '\n'
    · rw [newline, lines_newline, List.mem_cons] at mem
      rcases mem with rfl | later
      · exact List.nil_sublist _
      · exact (ih later).cons c
    · have first : (firstLine cs).1 ∈ lines cs := List.mem_cons_self
      rw [lines_cons newline, List.mem_cons] at mem
      rcases mem with rfl | later
      · exact (ih first).cons_cons c
      · exact (ih (List.mem_cons_of_mem _ later)).cons c

theorem statement_sublist (text : List Char) : List.Sublist (peelLabels text).statement text := by
  have behind (rest : List Char) : List.Sublist (trimStart rest) rest :=
    List.dropWhile_sublist isBlank
  fun_induction peelLabels text with
  | case1 => exact List.Sublist.refl _
  | case2 text head rest found _ _ _ _ ih =>
    exact ih.trans ((behind rest).trans (after_sublist found))
  | case3 text head rest found => exact (behind rest).trans (after_sublist found)

/-- A statement is a piece of its line. -/
theorem ofText_statement_sublist (number slot : Nat) (raw : List Char) :
    List.Sublist (ofText number slot raw).statement raw := by
  have code : List.Sublist (code raw) raw :=
    (trim_sublist _).trans (List.takeWhile_sublist _)
  exact (statement_sublist _).trans code

/-- A line with a statement is kept. -/
theorem isKept_of_bearsStatement {raw : List Char} (h : bearsStatement raw = true) :
    isKept raw = true := by
  have stated : (peelLabels (code raw)).statement.isEmpty = false := by
    simpa [bearsStatement] using h
  simp only [isKept, stated, Bool.false_and, Bool.not_false]

/-! ## 3. Lines in their places -/

/-- The slot of the line that follows. -/
def nextSlot (line : SourceLine) : Except Abort Nat :=
  if line.statement.isEmpty then .ok line.slot else unsigned 64 (line.slot + 1 : Nat)

/-- The lines of a source in their places, behind a number of lines and of statements. -/
def place (i slot : Nat) : List (List Char) → Except Abort (List SourceLine)
  | [] => return []
  | raw :: raws => do
    let number ← unsigned 64 (i + 1 : Nat)
    let line := ofText number slot raw
    return line :: (← place (i + 1) (← nextSlot line) raws)

theorem nextSlot_eq {line : SourceLine} (lt : line.nextSlot < 2 ^ 64) :
    nextSlot line = .ok line.nextSlot := by
  unfold nextSlot SourceLine.nextSlot at *
  split
  · rfl
  · rename_i stated
    rw [if_neg stated] at lt
    exact unsigned_natCast lt

/-- **Lines and statements are counted without an overflow.** -/
theorem place_eq {i slot : Nat} {raws : List (List Char)} (lines : i + raws.length < 2 ^ 64)
    (statements : slot + raws.countP bearsStatement < 2 ^ 64) :
    place i slot raws = .ok (SourceLine.place [] (i + 1) slot raws) := by
  induction raws generalizing i slot with
  | nil => rfl
  | cons raw raws ih =>
    have counted : (ofText (i + 1) slot raw).nextSlot + raws.countP bearsStatement < 2 ^ 64 := by
      rw [List.countP_cons] at statements
      rw [nextSlot_ofText]
      omega
    have next : nextSlot (ofText (i + 1) slot raw) = .ok (ofText (i + 1) slot raw).nextSlot :=
      nextSlot_eq (by omega)
    rw [List.length_cons] at lines
    have later := ih (i := i + 1) (by omega) counted
    rw [place_cons, place, unsigned_natCast (show i + 1 < 2 ^ 64 by omega)]
    simp only [ok_bind, next, later]
    rfl

/-! ## 4. Programs -/

/-- What a line contributes to the program. -/
def assembleLine (labels : LabelTable) (line : SourceLine) :
    Guarded ParseError (Option Record) :=
  match line.labelFault? labels with
  | some fault => throw ⟨line.number, fault⟩
  | none =>
    ExceptT.adapt (fun fault => ⟨line.number, fault⟩) do
      if line.statement.isEmpty then return none
      else return some (← assembleStatement labels line.slot line.number line.statement)

/-- The program of a source text. -/
def parse (source : String) : Guarded ParseError Program := do
  let lines ← place 0 0 (lines source.toList)
  let labels := LabelTable.ofLines lines
  let records ← lines.mapM (assembleLine labels)
  return ⟨(records.filterMap id).toArray, labels⟩

theorem assembleLine_eq {labels : LabelTable} {line : SourceLine}
    (within : ∀ d ∈ labels.defs, d.slot < maxSlots) (here : line.slot < maxSlots)
    (small : byteLength line.statement < 2 ^ 63) :
    assembleLine labels line = done (line.assemble labels) := by
  unfold assembleLine SourceLine.assemble SourceLine.statement?
  rw [assembleStatement_eq within here small]
  cases line.labelFault? labels with
  | some fault => rfl
  | none =>
    cases line.statement.isEmpty with
    | true => rfl
    | false => cases Statement.assemble labels line.slot line.number line.statement <;> rfl

/-- The statements of a source that finds room are few. -/
theorem Allocates.statements {source : String} (allocates : Allocates source) :
    (lines source.toList).countP bearsStatement < maxSlots := by
  have kept : (lines source.toList).countP bearsStatement ≤ (lines source.toList).countP isKept :=
    List.countP_mono_left fun _ _ => isKept_of_bearsStatement
  have room := allocates.ofLines
  unfold maxSlots
  omega

theorem Allocates.numbers {source : String} (allocates : Allocates source) :
    (lines source.toList).length < 2 ^ 64 := by
  have lines := length_lines_le source.toList
  have bytes := length_le_byteLength source.toList
  have room := allocates.ofText
  omega

/-- A line of a source that finds room, in its place. -/
theorem Allocates.line {source : String} (allocates : Allocates source) {line : SourceLine}
    (mem : line ∈ SourceLine.all source.toList) :
    line.slot < maxSlots ∧ byteLength line.statement < 2 ^ 63 := by
  obtain ⟨pre, raw, post, whole, rfl⟩ := SourceLine.mem_place.mp mem
  have statements := allocates.statements
  have piece : raw ∈ lines source.toList := by
    rw [whole]
    exact List.mem_append_right _ List.mem_cons_self
  have bytes := byteLength_le_of_sublist
    ((ofText_statement_sublist (1 + pre.length) (0 + pre.countP bearsStatement) raw).trans
      (mem_lines piece))
  refine ⟨?_, Nat.lt_of_le_of_lt bytes allocates.ofText⟩
  rw [whole, List.countP_append] at statements
  show 0 + pre.countP bearsStatement < maxSlots
  omega

/-- **Parsing a source that finds room never aborts.** -/
theorem parse_eq {source : String} (allocates : Allocates source) :
    parse source = done (Program.parse source) := by
  have statements := allocates.statements
  have placed : place 0 0 (lines source.toList) = .ok (SourceLine.all source.toList) := by
    unfold maxSlots at statements
    exact place_eq (by rw [Nat.zero_add]; exact allocates.numbers) (by omega)
  have within : ∀ d ∈ (LabelTable.ofLines (SourceLine.all source.toList)).defs,
      d.slot < maxSlots := by
    intro d mem
    obtain ⟨line, listed, defined⟩ := List.mem_flatMap.mp mem
    obtain ⟨-, slot, -⟩ := SourceLine.mem_definitions.mp defined
    exact slot ▸ (allocates.line listed).1
  have each : ∀ line ∈ SourceLine.all source.toList, assembleLine _ line = _ := fun line mem =>
    assembleLine_eq within (allocates.line mem).1 (allocates.line mem).2
  unfold parse Program.parse Program.assemble
  simp only [placed, lift_ok, pure_bind, mapM_done each, done_bind]
  rfl

end Rv32i.Checked
