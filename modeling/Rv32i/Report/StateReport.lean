import Rv32i.Machine.History
import Rv32i.Report.Style
import Rv32i.Session.Snapshot

/-!
# The state in readable form

`StateReport.render` writes a snapshot for people: the program counter, the registers four to a
row, the first bytes of memory sixteen to a row and, if asked for, the history.

Every column has a width that its values cannot exceed, save those of the history, which comes
last.
-/

namespace Rv32i

open Text

/-- What a report shows. -/
structure StateReport where
  snapshot : Snapshot
  /-- Bytes of memory shown. -/
  window : Nat
  history : Option History := none

namespace StateReport

/-- The rows of a list behind those made before (last one first), as far as the budget lasts. -/
def rowsAfter {α : Type} (length : Nat) (before : List (List α)) : Nat → List α → List (List α)
  | budget + 1, item :: items =>
    rowsAfter length ((item :: items).take length :: before) budget ((item :: items).drop length)
  | _, _ => before.reverse

/-- The list in rows of a length, which is not zero. The last row may be shorter. -/
def rows {α : Type} (length : Nat) (items : List α) : List (List α) :=
  rowsAfter length [] items.length items

/-- The first line: the program counter, its byte address, and whether the hart has halted. -/
def headline (styled : Bool) (s : Snapshot) : String :=
  let status := if s.halted then Style.green.paint styled "halted"
    else Style.yellow.paint styled "running"
  Style.bold.paint styled "STATE" ++ " pc=" ++ decimal s.pc.toNat ++ " (0x" ++
    padLeft 8 '0' (hex (Hart.slotAddress s.pc).toNat) ++ ") " ++ status ++ "\n"

/-- A register and its value. A register number counts modulo 256. -/
def registerText (styled : Bool) (index : Nat) (value : Word) : String :=
  let name := "x" ++ padRight 2 (decimal index) ++ " " ++
    padLeft 4 ' ' (Reg.shownName (index % 256))
  let text := padLeft 11 ' ' (signed value.toInt)
  let text := if value = 0 then Style.dimmed.paint styled text else text
  "  " ++ Style.cyan.paint styled name ++ " " ++ text

/-- The registers, four to a row. -/
def registerRows (styled : Bool) (registers : List Word) : String :=
  String.join <| (rows 4 registers.zipIdx).map fun row =>
    String.join (row.map fun (value, index) => registerText styled index value) ++ "\n"

/-- Sixteen bytes and the address of the first. -/
def memoryRow (styled : Bool) (row : Nat) (bytes : List Byte) : String :=
  let address := padLeft 8 '0' (hex (16 * row))
  "  " ++ Style.cyan.paint styled address ++ " " ++
    " ".intercalate (bytes.map fun b => padLeft 2 '0' (hex b.toNat)) ++ "\n"

/-- The bytes, sixteen to a row. -/
def memoryRows (styled : Bool) (bytes : List Byte) : String :=
  String.join <| (rows 16 bytes).zipIdx.map fun (row, index) => memoryRow styled index row

/-- An entry of the history. -/
def historyRow (entry : HistoryEntry) : String :=
  "  pc=" ++ padRight 6 (decimal entry.pc.toNat) ++ " line " ++ padRight 5 (decimal entry.line) ++
    " " ++ entry.source ++ "\n"

/-- The history, if it has entries. -/
def historyText (styled : Bool) (entries : List HistoryEntry) : String :=
  if entries.isEmpty then ""
  else
    Style.bold.paint styled "HISTORY" ++ " (oldest first)\n" ++
      String.join (entries.map historyRow)

/-- The report. -/
def render (styled : Bool) (report : StateReport) : String :=
  let bytes := (report.snapshot.window report.window).toList
  headline styled report.snapshot ++
    Style.bold.paint styled "REGISTERS" ++ "\n" ++
    registerRows styled report.snapshot.registers ++
    Style.bold.paint styled "MEMORY" ++ " (first " ++ decimal bytes.length ++ " bytes)\n" ++
    memoryRows styled bytes ++
    historyText styled ((report.history.map History.entries).getD [])

end StateReport

end Rv32i
