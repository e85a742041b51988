import Rv32i.CommandLine.Perform
import Rv32i.Proofs.Assembly.Forms
import Rv32i.Proofs.Json.RoundTrip
import Rv32i.Proofs.Session.WireForm

/-!
# Run outputs, printed and read as snapshots

A run output is printed as the members of its snapshot and its steps, and what was printed may be
given back as a snapshot. The snapshot that is read is the one of the output, if the numbers in it
are of 64 bits.

* `RunOutput.plain_toJson`: the wire form of such an output is written as itself;
* `Snapshot.sendable_of_ofJson?` and `Program.sendable_of_parse`: records have numbers of 64 bits if
  they were read from a snapshot, or assembled from a source with fewer than `2 ^ 64` lines;
* `Snapshot.read_printed`: the output comes back.
-/

namespace Rv32i

open Text

/-! ## 1. What is written -/

namespace Json

theorem plain_nat {n : Nat} (below : n < 2 ^ 64) : Plain (nat n) :=
  .int (by omega) (by omega)

theorem plain_ofSigned (w : Word) : Plain (ofSigned w) := by
  have low : -2 ^ 31 ≤ w.toInt := BitVec.le_toInt w
  have high : w.toInt < 2 ^ 31 := BitVec.toInt_lt
  exact .int (by omega) (by omega)

theorem plain_ofUnsigned (w : Word) : Plain (ofUnsigned w) :=
  plain_nat (Nat.lt_trans w.isLt (by decide))

theorem plain_ofByte (b : Byte) : Plain (ofByte b) :=
  plain_nat (Nat.lt_trans b.isLt (by decide))

/-- The values of the members are written as themselves. -/
def AllPlain (members : List (String × Json)) : Prop :=
  ∀ m ∈ members, Plain m.2

theorem allPlain_nil : AllPlain [] :=
  nofun

theorem AllPlain.cons {key : String} {value : Json} {members : List (String × Json)}
    (rest : AllPlain members) (plain : Plain value) : AllPlain ((key, value) :: members) :=
  List.forall_mem_cons.mpr ⟨plain, rest⟩

theorem AllPlain.append {xs ys : List (String × Json)} (hx : AllPlain xs) (hy : AllPlain ys) :
    AllPlain (xs ++ ys) :=
  fun m mem => (List.mem_append.mp mem).elim (hx m) (hy m)

theorem allPlain_present {α : Type} (key : String) {write : α → Json} {value : Option α}
    (each : ∀ v, value = some v → Plain (write v)) : AllPlain (present key write value) := by
  intro m mem
  cases value with
  | none => cases mem
  | some v =>
    cases List.mem_singleton.mp mem
    exact each v rfl

theorem plain_map {α : Type} {write : α → Json} {xs : List α} (each : ∀ x ∈ xs, Plain (write x)) :
    Plain (arr (xs.map write)) := by
  refine .arr fun item mem => ?_
  obtain ⟨x, listed, rfl⟩ := List.mem_map.mp mem
  exact each x listed

end Json

open Json

theorem Record.plain_toJson {r : Record} (sendable : r.Sendable) : Plain r.toJson := by
  have fixed : AllPlain [("opcode", .str r.opcode.name), ("format", .str r.format.name),
      ("index", .nat r.index), ("line", .nat r.line), ("source", .str r.source)] :=
    ((((allPlain_nil.cons (.str _)).cons (plain_nat sendable.line)).cons
      (plain_nat sendable.index)).cons (.str _)).cons (.str _)
  have byte (key : String) (value : Option Byte) : AllPlain (present key .ofByte value) :=
    allPlain_present key fun b _ => plain_ofByte b
  have imm : AllPlain (present "imm" .ofSigned r.imm) :=
    allPlain_present "imm" fun w _ => plain_ofSigned w
  have label : AllPlain (present "label" .str r.label) :=
    allPlain_present "label" fun name _ => .str name
  exact .obj (((((fixed.append (byte "rd" r.rd)).append (byte "rs1" r.rs1)).append
    (byte "rs2" r.rs2)).append imm).append label)

theorem Cell.plain_toJson (cell : Cell) : Plain cell.toJson :=
  .obj ((allPlain_nil.cons (plain_ofByte cell.value)).cons (plain_ofUnsigned cell.address))

theorem Snapshot.plain_members {s : Snapshot} (sendable : s.Sendable) : AllPlain s.members := by
  have fixed : AllPlain [("registers", .arr (s.registers.map .ofSigned)),
      ("memory", .arr (s.memory.map Cell.toJson)), ("pc", .ofUnsigned s.pc),
      ("halted", .bool s.halted)] :=
    (((allPlain_nil.cons (.bool _)).cons (plain_ofUnsigned s.pc)).cons
      (plain_map fun cell _ => cell.plain_toJson)).cons (plain_map fun w _ => plain_ofSigned w)
  refine fixed.append (allPlain_present "instructions" fun records carried => ?_)
  exact plain_map fun r mem =>
    Record.plain_toJson (sendable records carried r (Array.mem_toList_iff.mp mem))

/-- **An output is written as itself.** -/
theorem RunOutput.plain_toJson {output : RunOutput} (sendable : output.snapshot.Sendable)
    (few : output.steps < 2 ^ 64) : Plain output.toJson :=
  .obj ((Snapshot.plain_members sendable).append (allPlain_nil.cons (plain_nat few)))

/-- **A printed output is read as its snapshot.** -/
theorem Snapshot.read_printed {output : RunOutput} (sendable : output.snapshot.Sendable)
    (few : output.steps < 2 ^ 64) :
    (read? (printed output.toJson)).bind ofJson? = some output.snapshot := by
  rw [printed, read?_pretty (RunOutput.plain_toJson sendable few), Option.bind_some]
  exact ofJson?_of_members sendable (by simp [keys])

/-! ## 2. What has numbers of 64 bits -/

namespace Json

theorem lt_of_nat64? {value : Json} {n : Nat} (h : value.nat64? = some n) : n < 2 ^ 64 := by
  obtain ⟨z, within, rfl⟩ := Option.map_eq_some_iff.mp h
  cases value with
  | int z' =>
    obtain ⟨⟨low, high⟩, eq⟩ := Option.ite_none_right_eq_some.mp within
    cases eq
    omega
  | _ => cases within

theorem exists_of_required? {α : Type} {members : List (String × Json)} {key : String}
    {read : Json → Option α} {a : α} (h : required? members key read = some a) :
    ∃ value, read value = some a := by
  obtain ⟨found, -, h⟩ := Option.bind_eq_some_iff.mp h
  obtain ⟨value, -, h⟩ := Option.bind_eq_some_iff.mp h
  exact ⟨value, h⟩

theorem exists_of_listOf? {α : Type} {read : Json → Option α} {value : Json} {xs : List α}
    (h : value.listOf? read = some xs) : ∀ x ∈ xs, ∃ item, read item = some x := by
  cases value with
  | arr items =>
    replace h : items.mapM read = some xs := h
    induction items generalizing xs with
    | nil =>
      cases h
      exact nofun
    | cons item items ih =>
      rw [List.mapM_cons] at h
      obtain ⟨x, here, h⟩ := Option.bind_eq_some_iff.mp h
      obtain ⟨rest, later, h⟩ := Option.bind_eq_some_iff.mp h
      cases h
      exact List.forall_mem_cons.mpr ⟨⟨item, here⟩, ih later⟩
  | _ => cases h

theorem exists_of_optional? {α : Type} {members : List (String × Json)} {key : String}
    {read : Json → Option α} {a : α} (h : optional? members key read = some (some a)) :
    ∃ value, read value = some a := by
  obtain ⟨found, -, h⟩ := Option.bind_eq_some_iff.mp h
  split at h
  · cases h
  · cases h
  · obtain ⟨a', read, h⟩ := Option.bind_eq_some_iff.mp h
    cases h
    exact ⟨_, read⟩

end Json

/-- **A record that was read has numbers of 64 bits**, whether from an object or from an array. -/
theorem Record.sendable_of_ofJson? {value : Json} {r : Record} (h : ofJson? value = some r) :
    r.Sendable := by
  obtain ⟨members, -, h⟩ := Option.bind_eq_some_iff.mp h
  simp only [ofMembers?, Option.bind_eq_bind, Option.bind_eq_some_iff] at h
  obtain ⟨_, _, _, _, index, hi, line, hl, _, _, _, _, _, _, _, _, _, _, _, _, h⟩ := h
  cases h
  obtain ⟨_, readsIndex⟩ := exists_of_required? hi
  obtain ⟨_, readsLine⟩ := exists_of_required? hl
  exact ⟨lt_of_nat64? readsIndex, lt_of_nat64? readsLine⟩

/-- **The records of a snapshot that was read have numbers of 64 bits.** -/
theorem Snapshot.sendable_of_ofJson? {value : Json} {s : Snapshot} (h : ofJson? value = some s) :
    s.Sendable := by
  obtain ⟨members, -, h⟩ := Option.bind_eq_some_iff.mp h
  simp only [ofMembers?, Option.bind_eq_bind, Option.bind_eq_some_iff] at h
  obtain ⟨_, _, _, _, _, _, _, _, instructions, hi, h⟩ := h
  cases h
  intro records carried r mem
  obtain ⟨listed, rfl, rfl⟩ := Option.map_eq_some_iff.mp carried
  obtain ⟨list, reads⟩ := exists_of_optional? hi
  obtain ⟨item, reads⟩ := exists_of_listOf? reads r (List.mem_toArray.mp mem)
  exact Record.sendable_of_ofJson? reads

/-- **The records of a source have numbers of 64 bits**, unless it has more lines than can be
    counted. -/
theorem Program.sendable_of_parse {source : String} {program : Program}
    (parsed : Program.parse source = .ok program)
    (short : (lines source.toList).length < 2 ^ 64) : ∀ r ∈ program.records, r.Sendable := by
  intro r mem
  obtain ⟨results, each, rfl⟩ := Program.assemble_eq_ok_iff.mp parsed
  obtain ⟨i, fetched⟩ := List.getElem?_of_mem (List.mem_toArray.mp mem)
  obtain ⟨pre, raw, post, split, count, assembled⟩ := SourceLine.record_of_place each fetched
  obtain ⟨m, read⟩ := Statement.read_of_line assembled
  obtain ⟨index, line, -⟩ := read.same_place
  have statements : pre.countP SourceLine.bearsStatement ≤ pre.length := List.countP_le_length
  rw [split, List.length_append, List.length_cons] at short
  replace index : r.index = 0 + i := index
  replace line : r.line = 1 + pre.length := line
  exact ⟨by omega, by omega⟩

end Rv32i
