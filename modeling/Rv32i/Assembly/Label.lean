import Rv32i.Text.Blank

/-!
# Labels

A label is an identifier in front of a statement. It names an instruction slot: the position of
the next instruction of the program.

* `isIdentifier` is the form of a label's name;
* a `LabelDef` is one definition, with where it stands;
* a `LabelTable` holds the definitions of a source in order, and a name means the first of them
  (`LabelTable.find?`). A definition that is not the one its name means is a redefinition.
-/

namespace Rv32i

/-! ## 1. Names -/

/-- A character that may start an identifier. -/
def isIdentifierStart (c : Char) : Bool :=
  c.isAlpha || c = '_' || c = '.'

/-- A character that may follow in an identifier. -/
def isIdentifierRest (c : Char) : Bool :=
  c.isAlphanum || c = '_' || c = '.' || c = '$'

/-- The text is an identifier. Only ASCII letters and digits count. -/
def isIdentifier : List Char → Bool
  | [] => false
  | c :: cs => isIdentifierStart c && cs.all isIdentifierRest

/-! ## 2. Definitions -/

/-- One definition of a label. -/
structure LabelDef where
  name : String
  /-- The instruction slot it names. -/
  slot : Nat
  /-- The source line it stands on. -/
  line : Nat
  /-- Its place among the labels of that line. -/
  column : Nat
deriving DecidableEq

/-- The label definitions of a source, in order. -/
structure LabelTable where
  defs : List LabelDef := []
deriving DecidableEq

namespace LabelTable

/-- The definition that a name means: the first one. -/
def find? (labels : LabelTable) (name : String) : Option LabelDef :=
  labels.defs.find? fun d => d.name = name

/-- The slot that a name means. -/
def slot? (labels : LabelTable) (name : String) : Option Nat :=
  (labels.find? name).map (·.slot)

/-- The definition that a definition repeats, if it is not the one its name means. -/
def redefined? (labels : LabelTable) (d : LabelDef) : Option LabelDef :=
  (labels.find? d.name).filter (· ≠ d)

/-- A definition that is found has the name it was found by. -/
theorem name_of_find? {labels : LabelTable} {name : String} {d : LabelDef}
    (h : labels.find? name = some d) : d.name = name := by
  simpa using List.find?_some h

end LabelTable

end Rv32i
