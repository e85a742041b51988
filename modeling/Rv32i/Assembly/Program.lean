import Rv32i.Assembly.SourceLine
import Rv32i.Assembly.Statement

/-!
# Programs

A program is its records and the labels they were written with. `Program.parse` assembles a
source: the labels of all lines are collected first, so a statement may refer to a label that
follows it, and then the lines are read in order.

The first line that is wrong is the one reported. A line is wrong if it defines a label that is
defined already, if something other than an identifier stands before a colon, or if its statement
does not assemble; a fault of its labels is reported in preference to one of its statement.
-/

namespace Rv32i

/-- The label table of a source. -/
def LabelTable.ofLines (lines : List SourceLine) : LabelTable :=
  ⟨lines.flatMap SourceLine.definitions⟩

namespace SourceLine

/-- The first fault of a line's labels, from left to right. -/
def labelFault? (labels : LabelTable) (line : SourceLine) : Option ParseFault :=
  match line.definitions.findSome? labels.redefined? with
  | some first => some (.duplicateLabel first.name first.line)
  | none => line.badLabel.map .invalidLabel

/-- The record of a line's statement, if it has one. -/
def statement? (labels : LabelTable) (line : SourceLine) : Except ParseFault (Option Record) :=
  if line.statement.isEmpty then .ok none
  else (Statement.assemble labels line.slot line.number line.statement).map some

/-- What a line contributes to the program. -/
def assemble (labels : LabelTable) (line : SourceLine) : Except ParseError (Option Record) :=
  match line.labelFault? labels with
  | some fault => .error ⟨line.number, fault⟩
  | none => (line.statement? labels).mapError fun fault => ⟨line.number, fault⟩

end SourceLine

/-- A program: its records in order and the labels of its source. -/
structure Program where
  records : Array Record
  labels : LabelTable := {}
deriving DecidableEq

namespace Program

/-- The program of given records. Their labels are resolved, so the table is empty. -/
def ofRecords (records : Array Record) : Program :=
  { records }

/-- The number of instruction slots. -/
def size (program : Program) : Nat :=
  program.records.size

/-- The record at a slot. -/
def record? (program : Program) (slot : Nat) : Option Record :=
  program.records[slot]?

/-- The program of a source text given by its characters. -/
def assemble (source : List Char) : Except ParseError Program := do
  let lines := SourceLine.all source
  let labels := LabelTable.ofLines lines
  let records ← lines.mapM (SourceLine.assemble labels)
  return ⟨(records.filterMap id).toArray, labels⟩

/-- The program of a source text. -/
def parse (source : String) : Except ParseError Program :=
  assemble source.toList

end Program

end Rv32i
