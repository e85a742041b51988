import Rv32i.Json.Value
import Rv32i.Session.Requests

/-!
# The wire form of snapshots

Records, snapshots and run outputs as JSON values, and back.

* Written, a missing operand of a record and missing instructions leave no member behind.
* Read, an optional member may be missing or `null`, and unknown members are ignored. Every other
  member has to be there once and within its type: registers and immediates are signed 32-bit
  integers, program counters and addresses unsigned ones, register numbers and byte values below
  256, positions and line numbers below `2 ^ 64`.
* Read, an array may stand for an object: its items are the values of the keys, in the order in
  which they are written. It may end early if the members left over may be missing, and has no items
  besides.
* Mnemonics and formats go by their exact names. Read, a name may also be the only key of an object
  with the value `null`.

A run output is its snapshot with one more member, so it can be read as a snapshot.
-/

namespace Rv32i

/-! ## 1. Numbers of a width -/

namespace Json

/-- A word, read as a signed number. -/
def ofSigned (w : Word) : Json :=
  int w.toInt

/-- A word, read as an unsigned number. -/
def ofUnsigned (w : Word) : Json :=
  nat w.toNat

/-- A byte. -/
def ofByte (b : Byte) : Json :=
  nat b.toNat

/-- The word that a signed number writes. -/
def signedWord? (value : Json) : Option Word :=
  (value.intWithin? (-2 ^ 31) (2 ^ 31)).map (BitVec.ofInt 32)

/-- The word that an unsigned number writes. -/
def unsignedWord? (value : Json) : Option Word :=
  (value.natBelow? (2 ^ 32)).map (BitVec.ofNat 32)

/-- The byte that a number writes. -/
def byte? (value : Json) : Option Byte :=
  (value.natBelow? (2 ^ 8)).map (BitVec.ofNat 8)

/-- A number of 64 bits. -/
def nat64? (value : Json) : Option Nat :=
  value.natBelow? (2 ^ 64)

/-- A string. -/
def text? : Json → Option String
  | str text => some text
  | _ => none

/-- A truth value. -/
def flag? : Json → Option Bool
  | bool value => some value
  | _ => none

/-- The name of a choice: a string, or an object whose only member has the name and `null`. -/
def choice? : Json → Option String
  | str name | obj [(name, null)] => some name
  | _ => none

/-- A list of values that one reader reads. -/
def listOf? {α : Type} (read : Json → Option α) : Json → Option (List α)
  | arr items => items.mapM read
  | _ => none

/-! ## 2. Members -/

/-- The members of a value: those of an object, or the items of an array, which have the keys in
    their order. There may be fewer items than keys, but not more. -/
def membersFor? (keys : List String) : Json → Option (List (String × Json))
  | obj members => some members
  | arr items => if items.length ≤ keys.length then some (keys.zip items) else none
  | _ => none

@[simp] theorem membersFor?_obj (keys : List String) (members : List (String × Json)) :
    (obj members).membersFor? keys = some members :=
  rfl

/-- A member that has to be there. -/
def required? {α : Type} (members : List (String × Json)) (key : String)
    (read : Json → Option α) : Option α := do
  let value ← (← member? members key)
  read value

/-- A member that may be missing or `null`. -/
def optional? {α : Type} (members : List (String × Json)) (key : String)
    (read : Json → Option α) : Option (Option α) := do
  match ← member? members key with
  | none | some null => return none
  | some value => return some (← read value)

/-- A member that may be missing, but is no `null`. -/
def defaulted? {α : Type} (members : List (String × Json)) (key : String)
    (read : Json → Option α) (missing : α) : Option α := do
  match ← member? members key with
  | none => return missing
  | some value => read value

/-- The member of an operand, if there is one. -/
def present {α : Type} (key : String) (write : α → Json) (value : Option α) :
    List (String × Json) :=
  (value.map fun v => (key, write v)).toList

end Json

/-! ## 3. Records -/

namespace Record

/-- The keys of a record. -/
def keys : List String :=
  ["opcode", "format", "index", "line", "source", "rd", "rs1", "rs2", "imm", "label"]

/-- The members of a record's wire form. -/
def members (r : Record) : List (String × Json) :=
  [("opcode", .str r.opcode.name), ("format", .str r.format.name), ("index", .nat r.index),
    ("line", .nat r.line), ("source", .str r.source)] ++
  Json.present "rd" .ofByte r.rd ++ Json.present "rs1" .ofByte r.rs1 ++
  Json.present "rs2" .ofByte r.rs2 ++ Json.present "imm" .ofSigned r.imm ++
  Json.present "label" .str r.label

/-- The wire form of a record. -/
def toJson (r : Record) : Json :=
  .obj r.members

/-- The record that has the members. -/
def ofMembers? (members : List (String × Json)) : Option Record := do
  let opcode ← Json.required? members "opcode" fun v => v.choice?.bind Mnemonic.ofName?
  let format ← Json.required? members "format" fun v => v.choice?.bind Format.ofName?
  let index ← Json.required? members "index" Json.nat64?
  let line ← Json.required? members "line" Json.nat64?
  let source ← Json.required? members "source" Json.text?
  let rd ← Json.optional? members "rd" Json.byte?
  let rs1 ← Json.optional? members "rs1" Json.byte?
  let rs2 ← Json.optional? members "rs2" Json.byte?
  let imm ← Json.optional? members "imm" Json.signedWord?
  let label ← Json.optional? members "label" Json.text?
  return { opcode, format, index, line, source, rd, rs1, rs2, imm, label }

/-- The record that a value is the wire form of. -/
def ofJson? (value : Json) : Option Record :=
  (value.membersFor? keys).bind ofMembers?

end Record

/-! ## 4. Cells -/

namespace Cell

/-- The keys of a cell. -/
def keys : List String :=
  ["address", "value"]

/-- The wire form of a cell. -/
def toJson (cell : Cell) : Json :=
  .obj [("address", .ofUnsigned cell.address), ("value", .ofByte cell.value)]

/-- The cell that has the members. -/
def ofMembers? (members : List (String × Json)) : Option Cell := do
  let address ← Json.required? members "address" Json.unsignedWord?
  let value ← Json.required? members "value" Json.byte?
  return { address, value }

/-- The cell that a value is the wire form of. -/
def ofJson? (value : Json) : Option Cell :=
  (value.membersFor? keys).bind ofMembers?

end Cell

/-! ## 5. Snapshots -/

namespace Snapshot

/-- The keys of a snapshot. -/
def keys : List String :=
  ["registers", "memory", "pc", "halted", "instructions"]

/-- The members of a snapshot's wire form. -/
def members (s : Snapshot) : List (String × Json) :=
  [("registers", .arr (s.registers.map .ofSigned)), ("memory", .arr (s.memory.map Cell.toJson)),
    ("pc", .ofUnsigned s.pc), ("halted", .bool s.halted)] ++
  Json.present "instructions" (fun records => .arr (records.toList.map Record.toJson))
    s.instructions

/-- The wire form of a snapshot. -/
def toJson (s : Snapshot) : Json :=
  .obj s.members

/-- The snapshot that has the members. -/
def ofMembers? (members : List (String × Json)) : Option Snapshot := do
  let registers ← Json.required? members "registers" (Json.listOf? Json.signedWord?)
  let memory ← Json.defaulted? members "memory" (Json.listOf? Cell.ofJson?) []
  let pc ← Json.required? members "pc" Json.unsignedWord?
  let halted ← Json.required? members "halted" Json.flag?
  let instructions ← Json.optional? members "instructions" (Json.listOf? Record.ofJson?)
  return { registers, memory, pc, halted, instructions := instructions.map List.toArray }

/-- The snapshot that a value is the wire form of. -/
def ofJson? (value : Json) : Option Snapshot :=
  (value.membersFor? keys).bind ofMembers?

end Snapshot

/-- The wire form of a run output: the members of its snapshot and its steps. -/
def RunOutput.toJson (output : RunOutput) : Json :=
  .obj (output.snapshot.members ++ [("steps", .nat output.steps)])

end Rv32i
