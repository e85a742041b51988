import Rv32i.Assembly.Label
import Rv32i.Text.Pieces

/-!
# Source lines

A source line is a comment, blanks, labels and a statement, each of which may be missing:

    label: other: mnemonic operands   # comment

* `peelLabels` takes the labels off a line, up to the first colon that no identifier precedes;
* `SourceLine.all` numbers the lines of a source from one and the statements from zero. The
  number of statements before a line is the slot that its labels name and its own statement
  takes; lines without a statement take no slot.
-/

namespace Rv32i

open Text

/-! ## 1. Labels in front of a statement -/

/-- A line taken apart at its colons. -/
structure Peeled where
  labels : List String
  /-- What stands before the first colon that no identifier precedes. -/
  badLabel : Option String
  statement : List Char
deriving DecidableEq

/-- The labels in front of a line, and what follows them. The line has no blanks at its end, so
    neither has what follows. -/
def peelLabels (text : List Char) : Peeled :=
  match h : cut (· = ':') text with
  | none => ⟨[], none, text⟩
  | some (head, rest) =>
    let name := String.ofList (trim head)
    if isIdentifier (trim head) then
      have : (trimStart rest).length < text.length :=
        Nat.lt_of_le_of_lt (length_dropWhile_le isBlank rest) (length_lt_of_cut h)
      let peeled := peelLabels (trimStart rest)
      { peeled with labels := name :: peeled.labels }
    else ⟨[], some name, trimStart rest⟩
termination_by text.length

/-! ## 2. Lines in their places -/

/-- A source line in its place. -/
structure SourceLine where
  /-- Its number, from one. -/
  number : Nat
  /-- The number of statements before it. -/
  slot : Nat
  labels : List String
  badLabel : Option String
  statement : List Char
deriving DecidableEq

namespace SourceLine

/-- The text of a line before its comment, without the blanks around it. -/
def code (raw : List Char) : List Char :=
  trim (raw.takeWhile (· ≠ '#'))

/-- The line with a number and a slot. -/
def ofText (number slot : Nat) (raw : List Char) : SourceLine :=
  let peeled := peelLabels (code raw)
  ⟨number, slot, peeled.labels, peeled.badLabel, peeled.statement⟩

/-- The slot of the line that follows. -/
def nextSlot (line : SourceLine) : Nat :=
  if line.statement.isEmpty then line.slot else line.slot + 1

/-- The label definitions of a line. -/
def definitions (line : SourceLine) : List LabelDef :=
  line.labels.mapIdx fun column name => ⟨name, line.slot, line.number, column⟩

/-- The lines in their places, behind those that are already placed (last one first). -/
def place (placed : List SourceLine) (number slot : Nat) : List (List Char) → List SourceLine
  | [] => placed.reverse
  | raw :: raws =>
    let line := ofText number slot raw
    place (line :: placed) (number + 1) line.nextSlot raws

/-- The lines of a source. -/
def all (source : List Char) : List SourceLine :=
  place [] 1 0 (lines source)

theorem place_eq_append (placed : List SourceLine) (number slot : Nat) (raws : List (List Char)) :
    place placed number slot raws = placed.reverse ++ place [] number slot raws := by
  induction raws generalizing placed number slot with
  | nil => simp [place]
  | cons raw raws ih =>
    simp only [place]
    rw [ih (ofText number slot raw :: placed), ih [ofText number slot raw]]
    simp

/-- **One line after the other**: a line takes its place and hands on number and slot. -/
theorem place_cons (number slot : Nat) (raw : List Char) (raws : List (List Char)) :
    place [] number slot (raw :: raws) =
      ofText number slot raw ::
        place [] (number + 1) (ofText number slot raw).nextSlot raws := by
  rw [place, place_eq_append]
  simp

end SourceLine

end Rv32i
