import Rv32i.Proofs.Assembly.LabelTarget

/-!
# The first fault of a source

What can be wrong with a source is said here of its lines alone, without an order in which they are
read.

* `LabelAt`: a label stands in front of a line, and `FirstLabelAt`: no label of its name stands
  before it. `LabelTable.find?_ofLines` says that names mean the labels that stand first;
* `FaultAt`: the fault at a place of a line. The labels of a line are its first places, then comes
  what should be a label, then the statement;
* `SourceLine.faults` lists the faults of one line, which `faults_eq_some_iff` shows to be those;
* `Program.parse_eq_error_iff`: the fault that is reported is the first one, line by line and place
  by place.
-/

namespace Rv32i

open Text SourceLine

/-! ## 1. First of its kind -/

section

variable {ε α β : Type}

/-- What is made of a value fails exactly if there is no value. -/
theorem map_eq_error_iff {x : Except ε α} {k : α → β} {e : ε} :
    (x >>= fun a => .ok (k a)) = .error e ↔ x = .error e := by
  cases x with
  | error cause => exact ⟨fun h => by cases h; rfl, fun h => by cases h; rfl⟩
  | ok a => exact ⟨nofun, nofun⟩

/-- A list that is not read to its end fails with the first of its members that fails. -/
theorem mapM_eq_error_iff {f : α → Except ε β} {g : α → Option ε}
    (fails : ∀ x e, f x = .error e ↔ g x = some e) {xs : List α} {e : ε} :
    xs.mapM f = .error e ↔ xs.findSome? g = some e := by
  induction xs with
  | nil => exact ⟨nofun, nofun⟩
  | cons x xs ih =>
    rw [List.mapM_cons, List.findSome?_cons]
    cases first : f x with
    | error cause =>
      rw [(fails x cause).mp first]
      exact ⟨fun h => by cases h; rfl, fun h => by cases h; rfl⟩
    | ok b =>
      have passes : g x = none := by
        cases fault : g x with
        | none => rfl
        | some cause => cases first.symm.trans ((fails x cause).mpr fault)
      rw [passes, ok_bind]
      exact map_eq_error_iff.trans ih

/-- The first member of a list that has something has nothing before it. -/
theorem findSome?_eq_some_iff_getElem? {g : α → Option β} {xs : List α} {b : β} :
    xs.findSome? g = some b ↔ ∃ (i : Nat) (x : α), xs[i]? = some x ∧ g x = some b ∧
      ∀ j y, j < i → xs[j]? = some y → g y = none := by
  induction xs with
  | nil => exact ⟨nofun, fun ⟨_, _, found, _⟩ => nomatch found⟩
  | cons x xs ih =>
    rw [List.findSome?_cons]
    cases first : g x with
    | some c =>
      constructor
      · intro h
        cases h
        exact ⟨0, x, rfl, first, nofun⟩
      · intro ⟨i, y, found, has, before⟩
        cases i with
        | zero =>
          cases found
          exact first.symm.trans has
        | succ i => cases first.symm.trans (before 0 x (Nat.succ_pos i) rfl)
    | none =>
      refine ih.trans ⟨fun ⟨i, y, found, has, before⟩ => ?_, fun ⟨i, y, found, has, before⟩ => ?_⟩
      · refine ⟨i + 1, y, found, has, fun j z lt listed => ?_⟩
        cases j with
        | zero =>
          cases listed
          exact first
        | succ j => exact before j z (Nat.lt_of_succ_lt_succ lt) listed
      · cases i with
        | zero =>
          cases found
          cases first.symm.trans has
        | succ i => exact ⟨i, y, found, has, fun j z lt => before (j + 1) z (Nat.succ_lt_succ lt)⟩

/-- In an ordered list the first of a kind is the least of its kind. -/
theorem find?_eq_some_iff_of_pairwise {R : α → α → Prop} (asymm : ∀ a b, R a b → ¬ R b a)
    {p : α → Bool} {xs : List α} (sorted : xs.Pairwise R) {a : α} :
    xs.find? p = some a ↔ a ∈ xs ∧ p a = true ∧ ∀ b ∈ xs, p b = true → b = a ∨ R a b := by
  induction sorted with
  | nil => exact ⟨nofun, fun ⟨mem, _⟩ => nomatch mem⟩
  | @cons x xs above sorted ih =>
    rw [List.find?_cons]
    cases kind : p x with
    | true =>
      constructor
      · intro h
        cases h
        exact ⟨List.mem_cons_self, kind, fun b mem _ => (List.mem_cons.mp mem).imp id (above b)⟩
      · intro ⟨mem, _, least⟩
        rcases List.mem_cons.mp mem with rfl | later
        · rfl
        · rcases least x List.mem_cons_self kind with rfl | before
          · rfl
          · exact absurd before (asymm _ _ (above a later))
    | false =>
      rw [ih]
      constructor
      · intro ⟨mem, pa, least⟩
        refine ⟨List.mem_cons_of_mem x mem, pa, fun b listed pb => ?_⟩
        rcases List.mem_cons.mp listed with rfl | later
        · cases kind.symm.trans pb
        · exact least b later pb
      · intro ⟨mem, pa, least⟩
        refine ⟨?_, pa, fun b later => least b (List.mem_cons_of_mem x later)⟩
        rcases List.mem_cons.mp mem with rfl | later
        · cases kind.symm.trans pa
        · exact later

end

/-! ## 2. Labels in reading order -/

/-- A label stands at a place in front of a line. Lines and places count from zero. -/
def LabelAt (raws : List (List Char)) (n column : Nat) (name : String) : Prop :=
  ∃ raw, raws[n]? = some raw ∧ (labelsOf raw)[column]? = some name

/-- **The first label of a name**: no other stands on an earlier line or before it on its line. -/
structure FirstLabelAt (raws : List (List Char)) (n column : Nat) (name : String) : Prop where
  here : LabelAt raws n column name
  first : ∀ m k, LabelAt raws m k name → n < m ∨ n = m ∧ column ≤ k

/-- The slot that the n-th line is at: the number of statements before it. -/
def slotAt (raws : List (List Char)) (n : Nat) : Nat :=
  (raws.take n).countP bearsStatement

/-- The table of the labels of all lines. -/
abbrev tableOf (raws : List (List Char)) : LabelTable :=
  .ofLines (place [] 1 0 raws)

theorem FirstLabelAt.unique {raws : List (List Char)} {n column m k : Nat} {name : String}
    (h : FirstLabelAt raws n column name) (other : FirstLabelAt raws m k name) :
    n = m ∧ column = k := by
  have := h.first m k other.here
  have := other.first n column h.here
  omega

namespace SourceLine

/-- **The n-th line is at its slot.** -/
theorem getElem?_place {raws : List (List Char)} {number slot n : Nat} :
    (place [] number slot raws)[n]? =
      raws[n]?.map (ofText (number + n) (slot + slotAt raws n)) := by
  induction raws generalizing number slot n with
  | nil => rfl
  | cons raw raws ih =>
    rw [place_cons]
    cases n with
    | zero => rfl
    | succ n =>
      rw [List.getElem?_cons_succ, List.getElem?_cons_succ, ih, nextSlot_ofText]
      have counted : slotAt (raw :: raws) (n + 1) =
          slotAt raws n + if bearsStatement raw then 1 else 0 := List.countP_cons
      rw [counted]
      congr 2 <;> omega

/-- The lines of a source. -/
theorem getElem?_lines {raws : List (List Char)} {n : Nat} {line : SourceLine} :
    (place [] 1 0 raws)[n]? = some line ↔
      ∃ raw, raws[n]? = some raw ∧ line = ofText (n + 1) (slotAt raws n) raw := by
  rw [getElem?_place, Nat.zero_add, Nat.add_comm, Option.map_eq_some_iff]
  exact exists_congr fun _ => and_congr_right fun _ => eq_comm

end SourceLine

/-- A definition comes before another in reading order. -/
def LabelDef.Before (d e : LabelDef) : Prop :=
  d.line < e.line ∨ d.line = e.line ∧ d.column < e.column

theorem LabelDef.Before.asymm {d e : LabelDef} (h : d.Before e) : ¬ e.Before d := by
  unfold Before at *
  omega

/-- **The definitions of a source** are its labels, each with the slot and the number of its
    line. -/
theorem mem_tableOf {raws : List (List Char)} {d : LabelDef} :
    d ∈ (tableOf raws).defs ↔ ∃ n, LabelAt raws n d.column d.name ∧
      d.slot = slotAt raws n ∧ d.line = n + 1 := by
  constructor
  · intro mem
    obtain ⟨line, placed, defines⟩ := List.mem_flatMap.mp mem
    obtain ⟨n, found⟩ := List.mem_iff_getElem?.mp placed
    obtain ⟨raw, there, rfl⟩ := getElem?_lines.mp found
    obtain ⟨named, slot, number⟩ := mem_definitions.mp defines
    exact ⟨n, ⟨raw, there, named⟩, slot, number⟩
  · intro ⟨n, ⟨raw, there, named⟩, slot, number⟩
    refine List.mem_flatMap.mpr ⟨ofText (n + 1) (slotAt raws n) raw, ?_, ?_⟩
    · exact List.mem_of_getElem? (getElem?_lines.mpr ⟨raw, there, rfl⟩)
    · exact mem_definitions.mpr ⟨named, slot, number⟩

theorem SourceLine.pairwise_definitions (line : SourceLine) :
    line.definitions.Pairwise LabelDef.Before := by
  refine List.pairwise_iff_getElem.mpr fun i j hi hj lt => .inr ?_
  simp only [definitions, List.getElem_mapIdx]
  exact ⟨trivial, lt⟩

/-- The definitions of a source are listed in reading order. -/
theorem pairwise_tableOf (raws : List (List Char)) :
    (tableOf raws).defs.Pairwise LabelDef.Before := by
  have numbered {n : Nat} {line : SourceLine} (found : (place [] 1 0 raws)[n]? = some line) :
      line.number = n + 1 := by
    obtain ⟨raw, -, rfl⟩ := getElem?_lines.mp found
    rfl
  refine List.pairwise_flatMap.mpr ⟨fun line _ => line.pairwise_definitions, ?_⟩
  refine List.pairwise_iff_getElem.mpr fun i j hi hj lt d defines e redefines => .inl ?_
  rw [(mem_definitions.mp defines).2.2, (mem_definitions.mp redefines).2.2,
    numbered (List.getElem?_eq_getElem hi), numbered (List.getElem?_eq_getElem hj)]
  exact Nat.succ_lt_succ lt

/-- **A name means the label that stands first**, and is found with its place. -/
theorem find?_tableOf {raws : List (List Char)} {name : String} {d : LabelDef} :
    (tableOf raws).find? name = some d ↔
      ∃ n, FirstLabelAt raws n d.column name ∧ d = ⟨name, slotAt raws n, n + 1, d.column⟩ := by
  rw [LabelTable.find?,
    find?_eq_some_iff_of_pairwise (fun _ _ => LabelDef.Before.asymm) (pairwise_tableOf raws)]
  constructor
  · intro ⟨mem, named, least⟩
    have named : d.name = name := of_decide_eq_true named
    obtain ⟨n, here, slot, line⟩ := mem_tableOf.mp mem
    refine ⟨n, ⟨named ▸ here, fun m k other => ?_⟩, ?_⟩
    · have listed : ⟨name, slotAt raws m, m + 1, k⟩ ∈ (tableOf raws).defs :=
        mem_tableOf.mpr ⟨m, other, rfl, rfl⟩
      rcases least _ listed (decide_eq_true rfl) with same | before
      · rw [← same] at line ⊢
        exact .inr ⟨(Nat.succ.inj line).symm, Nat.le_refl _⟩
      · have before : d.line < m + 1 ∨ d.line = m + 1 ∧ d.column < k := before
        omega
    · rw [← named, ← slot, ← line]
  · intro ⟨n, first, eq⟩
    rw [eq]
    refine ⟨mem_tableOf.mpr ⟨n, first.here, rfl, rfl⟩, decide_eq_true rfl, fun e listed named => ?_⟩
    obtain ⟨m, there, slot, line⟩ := mem_tableOf.mp listed
    rw [of_decide_eq_true named] at there
    rcases first.first m e.column there with earlier | ⟨rfl, le⟩
    · refine .inr (.inl ?_)
      rw [line]
      exact Nat.succ_lt_succ earlier
    · rcases Nat.lt_or_eq_of_le le with lt | same
      · exact .inr (.inr ⟨line.symm, lt⟩)
      · refine .inl ?_
        rw [← of_decide_eq_true named, ← slot, ← line, same]

/-- A name means the slot of the label that stands first. -/
theorem slot?_tableOf {raws : List (List Char)} {name : String} {slot : Nat} :
    (tableOf raws).slot? name = some slot ↔
      ∃ n column, FirstLabelAt raws n column name ∧ slot = slotAt raws n := by
  rw [LabelTable.slot?, Option.map_eq_some_iff]
  constructor
  · intro ⟨d, found, named⟩
    obtain ⟨n, first, eq⟩ := find?_tableOf.mp found
    refine ⟨n, d.column, first, ?_⟩
    rw [← named, eq]
  · intro ⟨n, column, first, eq⟩
    exact ⟨⟨name, slotAt raws n, n + 1, column⟩, find?_tableOf.mpr ⟨n, first, rfl⟩, eq.symm⟩

/-! ## 3. Faults in their places -/

/-- **The fault at a place of a line.** Its labels are the first places of a line; a label is wrong
    if it is not the first of its name. What stands before a colon and is no label comes behind
    them, and the statement last. -/
inductive FaultAt (raws : List (List Char)) (n : Nat) : Nat → ParseFault → Prop
  | redefined {column m k : Nat} {name : String} (here : LabelAt raws n column name)
      (first : FirstLabelAt raws m k name) (other : m ≠ n ∨ k ≠ column) :
    FaultAt raws n column (.duplicateLabel name (m + 1))
  | noLabel {raw : List Char} {text : String} (line : raws[n]? = some raw)
      (before : (peelLabels (code raw)).badLabel = some text) :
    FaultAt raws n (labelsOf raw).length (.invalidLabel text)
  | statement {raw : List Char} {fault : ParseFault} (line : raws[n]? = some raw)
      (bears : bearsStatement raw = true)
      (fails : Statement.assemble (tableOf raws) (slotAt raws n) (n + 1)
        (peelLabels (code raw)).statement = .error fault) :
    FaultAt raws n ((labelsOf raw).length + 1) fault

namespace SourceLine

/-- The fault of a line's statement. -/
def statementFault? (labels : LabelTable) (line : SourceLine) : Option ParseFault :=
  match line.statement? labels with
  | .ok _ => none
  | .error fault => some fault

/-- The places of a line, each with its fault if it has one. -/
def faults (labels : LabelTable) (line : SourceLine) : List (Option ParseFault) :=
  line.definitions.map (fun d =>
    (labels.redefined? d).map fun first => .duplicateLabel first.name first.line) ++
      [line.badLabel.map .invalidLabel, line.statementFault? labels]

/-- The first fault of a line. -/
def firstFault? (labels : LabelTable) (line : SourceLine) : Option ParseFault :=
  (line.faults labels).findSome? id

theorem firstFault?_eq (labels : LabelTable) (line : SourceLine) :
    line.firstFault? labels = (line.labelFault? labels).or (line.statementFault? labels) := by
  have redefined :
      (line.definitions.map fun d => (labels.redefined? d).map fun first =>
        ParseFault.duplicateLabel first.name first.line).findSome? id =
      (line.definitions.findSome? labels.redefined?).map fun first =>
        .duplicateLabel first.name first.line := by
    rw [List.findSome?_map, List.map_findSome?]
    rfl
  rw [firstFault?, faults, List.findSome?_append, redefined, labelFault?]
  cases line.definitions.findSome? labels.redefined? with
  | some first => rfl
  | none =>
    cases line.badLabel with
    | some text => rfl
    | none => cases line.statementFault? labels <;> rfl

/-- The error of a line: its number and its first fault. -/
def error? (labels : LabelTable) (line : SourceLine) : Option ParseError :=
  (line.firstFault? labels).map (ParseError.mk line.number)

/-- **A line that does not assemble has a fault, and its first one is reported.** -/
theorem assemble_eq_error_iff {labels : LabelTable} {line : SourceLine} {error : ParseError} :
    line.assemble labels = .error error ↔ line.error? labels = some error := by
  rw [error?, firstFault?_eq, assemble, statementFault?]
  cases line.labelFault? labels with
  | some fault => exact ⟨fun h => by cases h; rfl, fun h => by cases h; rfl⟩
  | none =>
    cases line.statement? labels with
    | ok result => exact ⟨nofun, nofun⟩
    | error fault => exact ⟨fun h => by cases h; rfl, fun h => by cases h; rfl⟩

variable {raws : List (List Char)} {n place : Nat} {fault : ParseFault}

/-- A definition is one too many exactly if another label of its name stands first. -/
theorem redefined?_tableOf {column : Nat} {name : String} {first : LabelDef} :
    (tableOf raws).redefined? ⟨name, slotAt raws n, n + 1, column⟩ = some first ↔
      ∃ m, FirstLabelAt raws m first.column name ∧ (m ≠ n ∨ first.column ≠ column) ∧
        first = ⟨name, slotAt raws m, m + 1, first.column⟩ := by
  rw [LabelTable.redefined?, Option.filter_eq_some_iff, find?_tableOf, decide_eq_true_eq]
  constructor
  · rintro ⟨⟨m, firstAt, eq⟩, ne⟩
    refine ⟨m, firstAt, Decidable.byContradiction fun same => ne ?_, eq⟩
    obtain ⟨rfl, place⟩ : m = n ∧ first.column = column := by omega
    rw [eq, place]
  · rintro ⟨m, firstAt, other, eq⟩
    refine ⟨⟨m, firstAt, eq⟩, fun same => ?_⟩
    have line : m + 1 = n + 1 := congrArg LabelDef.line (eq.symm.trans same)
    have place : first.column = column := congrArg LabelDef.column same
    omega

theorem statementFault?_eq_some_iff {labels : LabelTable} {number slot : Nat} {raw : List Char} :
    (ofText number slot raw).statementFault? labels = some fault ↔ bearsStatement raw = true ∧
      Statement.assemble labels slot number (peelLabels (code raw)).statement = .error fault := by
  have empty : (ofText number slot raw).statement.isEmpty = !bearsStatement raw := by
    rw [bearsStatement, Bool.not_not]
    rfl
  rw [statementFault?, statement?, empty]
  cases bearsStatement raw with
  | false =>
    constructor
    · intro h
      cases h
    · intro h
      cases h.1
  | true =>
    have text : (ofText number slot raw).statement = (peelLabels (code raw)).statement := rfl
    have place : (ofText number slot raw).slot = slot ∧ (ofText number slot raw).number = number :=
      ⟨rfl, rfl⟩
    rw [text, place.1, place.2]
    cases Statement.assemble labels slot number (peelLabels (code raw)).statement with
    | ok r =>
      constructor
      · intro h
        cases h
      · intro h
        cases h.2
    | error cause =>
      constructor
      · intro h
        cases h
        exact ⟨rfl, rfl⟩
      · intro h
        cases h.2
        rfl

theorem definitions_ofText {raw : List Char} {number slot : Nat} {d : LabelDef} :
    (ofText number slot raw).definitions[place]? = some d ↔
      ∃ name, (labelsOf raw)[place]? = some name ∧ d = ⟨name, slot, number, place⟩ := by
  rw [definitions, List.getElem?_mapIdx, Option.map_eq_some_iff]
  exact exists_congr fun _ => and_congr_right fun _ => eq_comm

/-- **The faults of a line are what is wrong with it**, each at its place. -/
theorem faults_eq_some_iff {raw : List Char} (there : raws[n]? = some raw) :
    ((ofText (n + 1) (slotAt raws n) raw).faults (tableOf raws))[place]? = some (some fault) ↔
      FaultAt raws n place fault := by
  have count : (ofText (n + 1) (slotAt raws n) raw).definitions.length = (labelsOf raw).length :=
    List.length_mapIdx
  rw [faults, List.getElem?_append, List.length_map, count]
  constructor
  · intro h
    split at h
    · rw [List.getElem?_map, Option.map_eq_some_iff] at h
      obtain ⟨d, found, redefines⟩ := h
      obtain ⟨name, here, rfl⟩ := definitions_ofText.mp found
      obtain ⟨first, redefined, rfl⟩ := Option.map_eq_some_iff.mp redefines
      obtain ⟨m, firstAt, other, eq⟩ := redefined?_tableOf.mp redefined
      rw [eq]
      exact .redefined ⟨raw, there, here⟩ firstAt other
    · rename_i behind
      cases rest : place - (labelsOf raw).length with
      | zero =>
        rw [rest] at h
        obtain ⟨text, before, rfl⟩ := Option.map_eq_some_iff.mp (Option.some.inj h)
        have here : place = (labelsOf raw).length := by omega
        exact here ▸ .noLabel there before
      | succ rest' =>
        cases rest' with
        | zero =>
          rw [rest] at h
          obtain ⟨bears, fails⟩ := statementFault?_eq_some_iff.mp (Option.some.inj h)
          have here : place = (labelsOf raw).length + 1 := by omega
          exact here ▸ .statement there bears fails
        | succ =>
          rw [rest] at h
          cases h
  · intro fault
    cases fault with
    | @redefined _ m k name here first other =>
      obtain ⟨_, line, named⟩ := here
      cases there.symm.trans line
      have lt : place < (labelsOf raw).length := (List.getElem?_eq_some_iff.mp named).1
      have redefined : (tableOf raws).redefined? ⟨name, slotAt raws n, n + 1, place⟩ =
          some ⟨name, slotAt raws m, m + 1, k⟩ := redefined?_tableOf.mpr ⟨m, first, other, rfl⟩
      rw [if_pos lt, List.getElem?_map, definitions_ofText.mpr ⟨name, named, rfl⟩, Option.map_some,
        redefined]
      rfl
    | noLabel line before =>
      cases there.symm.trans line
      rw [if_neg (Nat.lt_irrefl _), Nat.sub_self]
      exact congrArg some (Option.map_eq_some_iff.mpr ⟨_, before, rfl⟩)
    | statement line bears fails =>
      cases there.symm.trans line
      rw [if_neg (by omega), Nat.add_sub_cancel_left]
      exact congrArg some (statementFault?_eq_some_iff.mpr ⟨bears, fails⟩)

theorem firstFault?_eq_some_iff {raw : List Char} (there : raws[n]? = some raw) :
    (ofText (n + 1) (slotAt raws n) raw).firstFault? (tableOf raws) = some fault ↔
      ∃ place, FaultAt raws n place fault ∧
        ∀ k other, FaultAt raws n k other → place ≤ k := by
  rw [firstFault?, findSome?_eq_some_iff_getElem?]
  constructor
  · intro ⟨place, entry, found, has, before⟩
    cases has
    refine ⟨place, (faults_eq_some_iff there).mp found, fun k other wrong => ?_⟩
    refine Nat.le_of_not_lt fun lt => ?_
    cases before k (some other) lt ((faults_eq_some_iff there).mpr wrong)
  · intro ⟨place, wrong, least⟩
    have here := (faults_eq_some_iff there).mpr wrong
    refine ⟨place, some fault, here, rfl, fun k entry lt found => ?_⟩
    cases entry with
    | none => rfl
    | some other => exact absurd (least k other ((faults_eq_some_iff there).mp found)) (by omega)

theorem firstFault?_eq_none_iff {raw : List Char} (there : raws[n]? = some raw) :
    (ofText (n + 1) (slotAt raws n) raw).firstFault? (tableOf raws) = none ↔
      ∀ place fault, ¬ FaultAt raws n place fault := by
  rw [firstFault?, List.findSome?_eq_none_iff]
  constructor
  · intro clean place fault wrong
    cases clean _ (List.mem_of_getElem? ((faults_eq_some_iff there).mpr wrong))
  · intro clean entry mem
    obtain ⟨place, found⟩ := List.mem_iff_getElem?.mp mem
    cases entry with
    | none => rfl
    | some fault => exact absurd ((faults_eq_some_iff there).mp found) (clean place fault)

end SourceLine

/-! ## 4. The fault that is reported -/

/-- The fault is the first of the source: no line before it is wrong, and nothing before it on its
    line. -/
structure FirstFaultAt (raws : List (List Char)) (n place : Nat) (fault : ParseFault) : Prop where
  here : FaultAt raws n place fault
  first : ∀ m k other, FaultAt raws m k other → n < m ∨ n = m ∧ place ≤ k

theorem FaultAt.line {raws : List (List Char)} {n place : Nat} {fault : ParseFault}
    (h : FaultAt raws n place fault) : ∃ raw, raws[n]? = some raw := by
  cases h with
  | redefined here => exact ⟨_, here.choose_spec.1⟩
  | noLabel line => exact ⟨_, line⟩
  | statement line => exact ⟨_, line⟩

namespace Program

variable {source : List Char}

/-- The first line with an error is the one reported. -/
theorem assemble_eq_error_iff_findSome? {error : ParseError} :
    assemble source = .error error ↔
      (SourceLine.all source).findSome? (error? (tableOf (lines source))) = some error :=
  map_eq_error_iff.trans (mapM_eq_error_iff fun _ _ => SourceLine.assemble_eq_error_iff)

/-- **A source that does not assemble is reported by its first fault.** -/
theorem assemble_eq_error_iff {error : ParseError} :
    assemble source = .error error ↔ ∃ n place, error.line = n + 1 ∧
      FirstFaultAt (lines source) n place error.fault := by
  rw [assemble_eq_error_iff_findSome?, findSome?_eq_some_iff_getElem?]
  constructor
  · intro ⟨n, line, found, wrong, before⟩
    obtain ⟨raw, there, rfl⟩ := getElem?_lines.mp found
    obtain ⟨fault, firstFault, rfl⟩ := Option.map_eq_some_iff.mp wrong
    obtain ⟨place, here, least⟩ := (firstFault?_eq_some_iff there).mp firstFault
    refine ⟨n, place, rfl, here, fun m k other earlier => ?_⟩
    rcases Nat.lt_trichotomy n m with lt | rfl | gt
    · exact .inl lt
    · exact .inr ⟨rfl, least k other earlier⟩
    · obtain ⟨raw', there'⟩ := earlier.line
      have clean := before m _ gt (getElem?_lines.mpr ⟨raw', there', rfl⟩)
      rw [error?, Option.map_eq_none_iff, firstFault?_eq_none_iff there'] at clean
      exact absurd earlier (clean k other)
  · intro ⟨n, place, line, here, first⟩
    obtain ⟨raw, there⟩ := here.line
    refine ⟨n, _, getElem?_lines.mpr ⟨raw, there, rfl⟩, ?_, fun m other lt found => ?_⟩
    · refine Option.map_eq_some_iff.mpr ⟨error.fault, ?_, ?_⟩
      · refine (firstFault?_eq_some_iff there).mpr ⟨place, here, fun k fault wrong => ?_⟩
        have := first n k fault wrong
        omega
      · show ParseError.mk (n + 1) error.fault = error
        rw [← line]
    · obtain ⟨raw', there', rfl⟩ := getElem?_lines.mp found
      rw [error?, Option.map_eq_none_iff, firstFault?_eq_none_iff there']
      intro k fault wrong
      have := first m k fault wrong
      omega

/-- **A source assembles exactly if no line is wrong.** -/
theorem exists_assemble_eq_ok_iff :
    (∃ program, assemble source = .ok program) ↔
      ∀ n place fault, ¬ FaultAt (lines source) n place fault := by
  constructor
  · intro ⟨program, assembled⟩ n place fault wrong
    obtain ⟨raw, there⟩ := wrong.line
    have listed := List.mem_of_getElem? (getElem?_lines.mpr ⟨raw, there, rfl⟩)
    cases reported : (SourceLine.all source).findSome? (error? (tableOf (lines source))) with
    | some error => cases assembled.symm.trans (assemble_eq_error_iff_findSome?.mpr reported)
    | none =>
      have clean := List.findSome?_eq_none_iff.mp reported _ listed
      rw [error?, Option.map_eq_none_iff, firstFault?_eq_none_iff there] at clean
      exact clean place fault wrong
  · intro clean
    cases result : assemble source with
    | ok program => exact ⟨program, rfl⟩
    | error error =>
      obtain ⟨n, place, -, first⟩ := assemble_eq_error_iff.mp result
      exact absurd first.here (clean n place error.fault)

end Program

end Rv32i
