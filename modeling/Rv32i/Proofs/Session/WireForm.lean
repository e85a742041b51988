import Rv32i.Proofs.Assembly.Decoded
import Rv32i.Session.Wire

/-!
# The wire form, written and read

What `toJson` writes, `ofJson?` reads back, member by member: a member that has to be there is
written, an optional one is written exactly if it has a value, and no key is written twice.

* `Json.required?_of_filter`, `Json.optional?_of_filter` and `Json.defaulted?_of_filter` read a
  member off the members that have its key;
* `Record.ofJson?_toJson`: records come back if their position and line are numbers of 64 bits;
* `Snapshot.ofJson?_of_members`: and so do snapshots, also from an object with further members;
* `Snapshot.ofJson?_of_values`: they come back from the array of their values as well.

The main statement, `wire_round_trip`, says so of snapshots and of run outputs.
-/

namespace Rv32i

namespace Json

/-! ## 1. Numbers and names -/

theorem intWithin?_int {n low high : Int} (above : low ≤ n) (below : n < high) :
    (int n).intWithin? low high = some n :=
  if_pos ⟨above, below⟩

theorem natBelow?_nat {n bound : Nat} (below : n < bound) : (nat n).natBelow? bound = some n := by
  have within : (nat n).intWithin? 0 bound = some (n : Int) :=
    intWithin?_int (Int.natCast_nonneg n) (Int.ofNat_lt.mpr below)
  rw [natBelow?, within]
  rfl

theorem nat64?_nat {n : Nat} (below : n < 2 ^ 64) : (nat n).nat64? = some n :=
  natBelow?_nat below

/-- A word comes back from its reading with a sign. -/
theorem signedWord?_ofSigned (w : Word) : (ofSigned w).signedWord? = some w := by
  have within : (ofSigned w).intWithin? (-2 ^ 31) (2 ^ 31) = some w.toInt :=
    intWithin?_int (BitVec.le_toInt w) (BitVec.toInt_lt)
  rw [signedWord?, within]
  exact congrArg some (BitVec.ofInt_toInt)

/-- A word comes back from its reading without a sign. -/
theorem unsignedWord?_ofUnsigned (w : Word) : (ofUnsigned w).unsignedWord? = some w := by
  rw [unsignedWord?, ofUnsigned, natBelow?_nat w.isLt, Option.map_some, BitVec.ofNat_toNat,
    BitVec.setWidth_eq]

/-- A byte comes back from its reading. -/
theorem byte?_ofByte (b : Byte) : (ofByte b).byte? = some b := by
  rw [byte?, ofByte, natBelow?_nat b.isLt, Option.map_some, BitVec.ofNat_toNat, BitVec.setWidth_eq]

end Json

theorem Mnemonic.ofName?_name (m : Mnemonic) : ofName? m.name = some m := by
  have all : ∀ m ∈ Mnemonic.all, ofName? m.name = some m := by decide +kernel
  exact all m m.mem_all

theorem Format.ofName?_name (f : Format) : ofName? f.name = some f := by
  cases f <;> rfl

/-! ## 2. Lists and members -/

namespace Json

section

variable {α : Type} {read : Json → Option α} {write : α → Json}

/-- A list comes back if its items do. -/
theorem listOf?_map {xs : List α} (each : ∀ x ∈ xs, read (write x) = some x) :
    (arr (xs.map write)).listOf? read = some xs := by
  show (xs.map write).mapM read = some xs
  induction xs with
  | nil => rfl
  | cons x xs ih =>
    obtain ⟨first, rest⟩ := List.forall_mem_cons.mp each
    rw [List.map_cons, List.mapM_cons, first, ih rest]
    rfl

/-- What is made of a value before it is written makes no difference to whether it is. -/
theorem present_map {β : Type} (key : String) (f : β → α) (value : Option β) :
    present key (fun v => write (f v)) value = present key write (value.map f) := by
  cases value <;> rfl

/-- The members with a key are those written for it. -/
@[simp] theorem filter_present (key wanted : String) (value : Option α) :
    (present key write value).filter (fun m => m.1 = wanted) =
      if key = wanted then present key write value else [] := by
  cases value with
  | none => exact (ite_self []).symm
  | some v => by_cases same : key = wanted <;> simp [present, same]

variable {members : List (String × Json)} {key : String}

/-- A member that is written once is read. -/
theorem required?_of_filter (value : Json)
    (found : members.filter (fun m => m.1 = key) = [(key, value)]) :
    required? members key read = read value := by
  rw [required?, member?, found]
  rfl

/-- A member that may be missing is read where it is written. It must not be written as `null`,
    which would be read as if it were missing. -/
theorem optional?_of_filter (write : α → Json) (value : Option α)
    (found : members.filter (fun m => m.1 = key) = present key write value)
    (proper : ∀ v, value = some v → write v ≠ null)
    (each : ∀ v, value = some v → read (write v) = some v) :
    optional? members key read = some value := by
  rw [optional?, member?, found]
  cases value with
  | none => rfl
  | some v =>
    have back := each v rfl
    have proper := proper v rfl
    simp only [present, Option.map_some, Option.toList_some]
    cases written : write v with
    | null => exact absurd written proper
    | _ =>
      rw [written] at back
      simp [back]

theorem defaulted?_of_filter (value : Json) {missing : α}
    (found : members.filter (fun m => m.1 = key) = [(key, value)]) :
    defaulted? members key read missing = read value := by
  rw [defaulted?, member?, found]
  rfl

end

end Json

/-! ## 3. Records -/

namespace Record

/-- The position and the line of a record are numbers of 64 bits. -/
structure Sendable (r : Record) : Prop where
  index : r.index < 2 ^ 64
  line : r.line < 2 ^ 64

/-- **A record comes back from its wire form.** -/
theorem ofJson?_toJson {r : Record} (sendable : r.Sendable) : ofJson? r.toJson = some r := by
  rw [toJson, ofJson?, Json.membersFor?_obj, Option.bind_some, ofMembers?]
  rw [Json.required?_of_filter (.str r.opcode.name) (by simp [members]),
    Json.required?_of_filter (.str r.format.name) (by simp [members]),
    Json.required?_of_filter (.nat r.index) (by simp [members]),
    Json.required?_of_filter (.nat r.line) (by simp [members]),
    Json.required?_of_filter (.str r.source) (by simp [members]),
    Json.optional?_of_filter .ofByte r.rd (by simp [members]) nofun fun v _ => Json.byte?_ofByte v,
    Json.optional?_of_filter .ofByte r.rs1 (by simp [members]) nofun fun v _ => Json.byte?_ofByte v,
    Json.optional?_of_filter .ofByte r.rs2 (by simp [members]) nofun fun v _ => Json.byte?_ofByte v,
    Json.optional?_of_filter .ofSigned r.imm (by simp [members]) nofun
      fun v _ => Json.signedWord?_ofSigned v,
    Json.optional?_of_filter .str r.label (by simp [members]) nofun fun _ _ => rfl]
  show (do
    let opcode ← Mnemonic.ofName? r.opcode.name
    let format ← Format.ofName? r.format.name
    let index ← (Json.nat r.index).nat64?
    let line ← (Json.nat r.line).nat64?
    return { r with opcode, format, index, line }) = some r
  rw [r.opcode.ofName?_name, r.format.ofName?_name, Json.nat64?_nat sendable.index,
    Json.nat64?_nat sendable.line]
  rfl

end Record

/-! ## 4. Snapshots -/

theorem Cell.ofJson?_toJson (cell : Cell) : ofJson? cell.toJson = some cell := by
  rw [toJson, ofJson?, Json.membersFor?_obj, Option.bind_some, ofMembers?]
  rw [Json.required?_of_filter (.ofUnsigned cell.address) (by simp),
    Json.required?_of_filter (.ofByte cell.value) (by simp), Json.unsignedWord?_ofUnsigned,
    Json.byte?_ofByte]
  rfl

namespace Snapshot

/-- The records that a snapshot carries can be sent. -/
def Sendable (s : Snapshot) : Prop :=
  ∀ records, s.instructions = some records → ∀ r ∈ records, r.Sendable

/-- **A snapshot comes back from an object with its members**, and whatever other members the object
    has count for nothing. -/
theorem ofJson?_of_members {s : Snapshot} (sendable : s.Sendable) {others : List (String × Json)}
    (foreign : ∀ m ∈ others, m.1 ∉ keys) : ofJson? (.obj (s.members ++ others)) = some s := by
  have own {key : String} {found : List (String × Json)} (known : key ∈ keys)
      (written : s.members.filter (fun m => m.1 = key) = found) :
      (s.members ++ others).filter (fun m => m.1 = key) = found := by
    have none : others.filter (fun m => m.1 = key) = [] := List.filter_eq_nil_iff.mpr
      fun m mem same => foreign m mem (of_decide_eq_true same ▸ known)
    rw [List.filter_append, written, none, List.append_nil]
  have instructions : s.members.filter (fun m => m.1 = "instructions") =
      Json.present "instructions" (fun records => .arr (records.map Record.toJson))
        (s.instructions.map Array.toList) := by
    rw [← Json.present_map]
    simp [members]
  have each : ∀ records, s.instructions.map Array.toList = some records →
      (Json.arr (records.map Record.toJson)).listOf? Record.ofJson? = some records := by
    intro records listed
    obtain ⟨array, carried, rfl⟩ := Option.map_eq_some_iff.mp listed
    exact Json.listOf?_map fun r mem =>
      Record.ofJson?_toJson (sendable array carried r (Array.mem_toList_iff.mp mem))
  have array : (s.instructions.map Array.toList).map List.toArray = s.instructions := by
    cases s.instructions <;> rfl
  rw [ofJson?, Json.membersFor?_obj, Option.bind_some, ofMembers?]
  rw [Json.required?_of_filter (.arr (s.registers.map .ofSigned))
      (own (by decide) (by simp [members])),
    Json.defaulted?_of_filter (.arr (s.memory.map Cell.toJson))
      (own (by decide) (by simp [members])),
    Json.required?_of_filter (.ofUnsigned s.pc) (own (by decide) (by simp [members])),
    Json.required?_of_filter (.bool s.halted) (own (by decide) (by simp [members])),
    Json.optional?_of_filter _ _ (own (by decide) instructions) (fun _ _ => nofun) each,
    Json.listOf?_map fun w _ => Json.signedWord?_ofSigned w,
    Json.listOf?_map fun cell _ => cell.ofJson?_toJson, Json.unsignedWord?_ofUnsigned]
  show some { s with instructions := (s.instructions.map Array.toList).map List.toArray } = some s
  rw [array]

/-- **A snapshot comes back from the array of its values**, which ends early if it carries no
    records. -/
theorem ofJson?_of_values {s : Snapshot} (sendable : s.Sendable) :
    ofJson? (.arr (s.members.map Prod.snd)) = some s := by
  have named : (Json.arr (s.members.map Prod.snd)).membersFor? keys = some s.members := by
    rcases s with ⟨registers, memory, pc, halted, _ | records⟩ <;> rfl
  have alone : ofJson? (.obj (s.members ++ [])) = some s := ofJson?_of_members sendable nofun
  rw [List.append_nil, ofJson?, Json.membersFor?_obj] at alone
  rw [ofJson?, named, alone]

end Snapshot

/-! ## 5. The round trip -/

/-- **What is sent is what was there.** A snapshot whose records have positions and lines of 64 bits
    comes back from its own wire form, and from that of a run output that it is part of. -/
theorem wire_round_trip (s : Snapshot) (sendable : s.Sendable) :
    Snapshot.ofJson? s.toJson = some s ∧
      ∀ steps, Snapshot.ofJson? (RunOutput.toJson ⟨s, steps⟩) = some s := by
  have alone : Snapshot.ofJson? (.obj (s.members ++ [])) = some s :=
    Snapshot.ofJson?_of_members sendable nofun
  rw [List.append_nil] at alone
  exact ⟨alone, fun steps => Snapshot.ofJson?_of_members sendable (by simp [Snapshot.keys])⟩

/-- A snapshot with one register, cells out of order, and a record that belongs to no instruction:
    a store in the format of loads, at the last position there is, with a label but no register. -/
theorem wire_round_trip_misfit :
    let record : Record :=
      { opcode := .sw, format := .il, index := 2 ^ 64 - 1, line := 0, source := "sw \"x\"",
        imm := some (-1), label := some "" }
    let s : Snapshot := ⟨[-7], [⟨0xFFFFFFFF, 0⟩, ⟨3, 255⟩], 9, true, some #[record]⟩
    Snapshot.ofJson? s.toJson = some s ∧ Snapshot.ofJson? (RunOutput.toJson ⟨s, 1⟩) = some s := by
  intro record s
  have sendable : s.Sendable := by
    intro records carried r mem
    cases carried
    cases Array.mem_singleton.mp mem
    exact ⟨by decide, by decide⟩
  obtain ⟨alone, output⟩ := wire_round_trip s sendable
  exact ⟨alone, output 1⟩

end Rv32i
