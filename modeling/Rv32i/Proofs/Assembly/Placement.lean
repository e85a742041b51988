import Rv32i.Assembly.Program
import Rv32i.Proofs.Assembly.Decoded
import Rv32i.Proofs.Text.Cutting

/-!
# Lines and what they contribute

* `Program.assemble_eq_ok_iff`: a source assembles if every line does, and its records are what
  its lines contribute;
* `SourceLine.ofText_of_plain`: a line without colon and comment is its statement;
* `SourceLine.mem_place`: a line that is placed has the number of lines before it and the number of
  statements before it, and `SourceLine.record_of_place`: so has a record.
-/

namespace Rv32i

open Text

/-! ## 1. All lines at once -/

/-- A list is read without an error exactly if each of its members is. -/
theorem mapM_eq_ok_iff {ε α β : Type} {f : α → Except ε β} {xs : List α} {ys : List β} :
    xs.mapM f = .ok ys ↔ xs.map f = ys.map .ok := by
  induction xs generalizing ys with
  | nil =>
    rw [List.mapM_nil]
    cases ys with
    | nil => exact ⟨fun _ => rfl, fun _ => rfl⟩
    | cons y ys => exact ⟨nofun, nofun⟩
  | cons x xs ih =>
    rw [List.mapM_cons, bind_eq_ok]
    constructor
    · rintro ⟨y, hy, h⟩
      obtain ⟨rest, hs, h⟩ := bind_eq_ok.mp h
      cases h
      rw [List.map_cons, hy, ih.mp hs]
      rfl
    · intro h
      cases ys with
      | nil => cases h
      | cons y ys =>
        obtain ⟨hy, hs⟩ := List.cons.inj h
        exact ⟨y, hy, bind_eq_ok.mpr ⟨ys, ih.mpr hs, rfl⟩⟩

namespace Program

/-- **A source assembles exactly if its lines do**, and the program holds what they contribute. -/
theorem assemble_eq_ok_iff {source : List Char} {program : Program} :
    assemble source = .ok program ↔
      ∃ results : List (Option Record),
        (SourceLine.all source).map
          (SourceLine.assemble (.ofLines (SourceLine.all source))) = results.map .ok ∧
        program = ⟨(results.filterMap id).toArray, .ofLines (SourceLine.all source)⟩ := by
  unfold assemble
  rw [bind_eq_ok]
  constructor
  · rintro ⟨results, each, h⟩
    cases h
    exact ⟨results, mapM_eq_ok_iff.mp each, rfl⟩
  · rintro ⟨results, each, rfl⟩
    exact ⟨results, mapM_eq_ok_iff.mpr each, rfl⟩

end Program

/-! ## 2. Plain lines -/

namespace SourceLine

theorem peelLabels_of_plain {text : List Char} (h : ':' ∉ text) :
    peelLabels text = ⟨[], none, text⟩ := by
  have uncut : cut (· = ':') text = none :=
    cut_of_plain fun c mem => decide_eq_false fun e => h (e ▸ mem)
  rw [peelLabels]
  split
  · rfl
  · rename_i cutted
    rw [uncut] at cutted
    cases cutted

theorem code_of_uncommented {raw : List Char} (h : '#' ∉ raw) : code raw = trim raw := by
  have through : raw.takeWhile (· ≠ '#') = raw := by
    have whole : (raw ++ []).takeWhile (· ≠ '#') = raw ++ [] :=
      List.takeWhile_append_of_pos fun c mem => decide_eq_true fun e => h (e ▸ mem)
    rwa [List.append_nil] at whole
  rw [code, through]

/-- **A line without colon and comment is its statement**, with blanks around. -/
theorem ofText_of_uncommented {raw : List Char} (colon : ':' ∉ trim raw) (comment : '#' ∉ raw)
    (number slot : Nat) : ofText number slot raw = ⟨number, slot, [], none, trim raw⟩ := by
  rw [ofText, code_of_uncommented comment, peelLabels_of_plain colon]

theorem ofText_of_plain {raw : List Char} (colon : ':' ∉ raw) (comment : '#' ∉ raw)
    (trimmed : trim raw = raw) (number slot : Nat) :
    ofText number slot raw = ⟨number, slot, [], none, raw⟩ := by
  have line := ofText_of_uncommented (trimmed.symm ▸ colon) comment number slot
  rwa [trimmed] at line

/-! ## 3. Lines in their places -/

/-- The line has a statement. -/
def bearsStatement (raw : List Char) : Bool :=
  !(peelLabels (code raw)).statement.isEmpty

/-- The labels that stand in front of a line's statement. -/
def labelsOf (raw : List Char) : List String :=
  (peelLabels (code raw)).labels

theorem nextSlot_ofText (raw : List Char) (number slot : Nat) :
    (ofText number slot raw).nextSlot = slot + if bearsStatement raw then 1 else 0 := by
  show (if (peelLabels (code raw)).statement.isEmpty then slot else slot + 1) = _
  rw [bearsStatement]
  cases (peelLabels (code raw)).statement.isEmpty <;> rfl

/-- **A placed line counts the lines and the statements before it.** -/
theorem mem_place {raws : List (List Char)} {number slot : Nat} {line : SourceLine} :
    line ∈ place [] number slot raws ↔ ∃ pre raw post, raws = pre ++ raw :: post ∧
      line = ofText (number + pre.length) (slot + pre.countP bearsStatement) raw := by
  induction raws generalizing number slot with
  | nil =>
    refine ⟨nofun, ?_⟩
    rintro ⟨pre, raw, post, eq, -⟩
    cases pre with
    | nil => cases eq
    | cons p pre => cases eq
  | cons first raws ih =>
    rw [place_cons, List.mem_cons, ih, nextSlot_ofText]
    constructor
    · rintro (rfl | ⟨pre, raw, post, rfl, rfl⟩)
      · exact ⟨[], first, raws, rfl, rfl⟩
      · refine ⟨first :: pre, raw, post, rfl, ?_⟩
        rw [List.length_cons, List.countP_cons]
        congr 1 <;> omega
    · rintro ⟨pre, raw, post, eq, rfl⟩
      cases pre with
      | nil =>
        cases eq
        exact .inl rfl
      | cons p pre =>
        obtain ⟨rfl, rfl⟩ := List.cons.inj eq
        refine .inr ⟨pre, raw, post, rfl, ?_⟩
        rw [List.length_cons, List.countP_cons]
        congr 1 <;> omega

/-! ## 4. Records in their places -/

/-- A line assembles if its labels have no fault and its statement does. -/
theorem assemble_eq_ok_iff {labels : LabelTable} {line : SourceLine} {result : Option Record} :
    line.assemble labels = .ok result ↔
      line.labelFault? labels = none ∧ line.statement? labels = .ok result := by
  unfold assemble
  cases line.labelFault? labels with
  | some fault => exact ⟨nofun, nofun⟩
  | none =>
    cases line.statement? labels with
    | error fault => exact ⟨nofun, nofun⟩
    | ok found => exact ⟨fun h => by cases h; exact ⟨rfl, rfl⟩, fun h => by cases h.2; rfl⟩

/-- A statement assembles to its record, and where there is none nothing is contributed. -/
theorem statement?_eq_ok_iff {labels : LabelTable} {line : SourceLine} {result : Option Record} :
    line.statement? labels = .ok result ↔
      line.statement.isEmpty = true ∧ result = none ∨
      line.statement.isEmpty = false ∧ ∃ r, result = some r ∧
        Statement.assemble labels line.slot line.number line.statement = .ok r := by
  unfold statement?
  cases line.statement.isEmpty with
  | true =>
    refine ⟨fun h => .inl ⟨rfl, ?_⟩, ?_⟩
    · cases h
      rfl
    · rintro (⟨-, rfl⟩ | ⟨nonempty, -⟩)
      · rfl
      · cases nonempty
  | false =>
    show Except.map some _ = _ ↔ _
    cases Statement.assemble labels line.slot line.number line.statement with
    | error fault =>
      refine ⟨nofun, ?_⟩
      rintro (⟨empty, -⟩ | ⟨-, r, -, h⟩)
      · cases empty
      · cases h
    | ok r =>
      refine ⟨fun h => .inr ⟨rfl, r, ?_, rfl⟩, ?_⟩
      · cases h
        rfl
      · rintro (⟨empty, -⟩ | ⟨-, r', rfl, h⟩)
        · cases empty
        · cases h
          rfl

/-- A line that assembles contributes a record exactly if it has a statement. -/
theorem isSome_of_assemble {labels : LabelTable} {number slot : Nat} {raw : List Char}
    {result : Option Record} (h : (ofText number slot raw).assemble labels = .ok result) :
    result.isSome = bearsStatement raw := by
  rw [bearsStatement]
  show result.isSome = !(ofText number slot raw).statement.isEmpty
  rcases statement?_eq_ok_iff.mp (assemble_eq_ok_iff.mp h).2 with
    ⟨empty, rfl⟩ | ⟨nonempty, r, rfl, -⟩
  · rw [empty]
    rfl
  · rw [nonempty]
    rfl

variable {labels : LabelTable} {raws : List (List Char)} {number slot : Nat}
  {results : List (Option Record)}

/-- The records of a source are as many as its statements. -/
theorem length_of_place
    (each : (place [] number slot raws).map (assemble labels) = results.map .ok) :
    (results.filterMap id).length = raws.countP bearsStatement := by
  induction raws generalizing number slot results with
  | nil =>
    cases results with
    | nil => rfl
    | cons result results => cases each
  | cons raw raws ih =>
    rw [place_cons, List.map_cons] at each
    cases results with
    | nil => cases each
    | cons result results =>
      obtain ⟨here, later⟩ := List.cons.inj each
      have some := isSome_of_assemble here
      rw [List.countP_cons, ← ih later, ← some]
      cases result <;> rfl

/-- **A record comes from the line before which there are as many statements as records.** -/
theorem record_of_place
    (each : (place [] number slot raws).map (assemble labels) = results.map .ok) {i : Nat}
    {r : Record} (hr : (results.filterMap id)[i]? = some r) :
    ∃ pre raw post, raws = pre ++ raw :: post ∧ pre.countP bearsStatement = i ∧
      (ofText (number + pre.length) (slot + i) raw).assemble labels = .ok (some r) := by
  induction raws generalizing number slot results i with
  | nil =>
    cases results with
    | nil => cases hr
    | cons result results => cases each
  | cons raw raws ih =>
    rw [place_cons, List.map_cons] at each
    cases results with
    | nil => cases each
    | cons result results =>
      obtain ⟨here, later⟩ := List.cons.inj each
      have bears := isSome_of_assemble here
      rw [nextSlot_ofText, ← bears] at later
      cases result with
      | none =>
        obtain ⟨pre, found, post, rfl, count, assembled⟩ := ih later hr
        refine ⟨raw :: pre, found, post, rfl, ?_, ?_⟩
        · rw [List.countP_cons, count, ← bears]
          rfl
        · rw [List.length_cons, ← assembled]
          congr 2
          omega
      | some first =>
        cases i with
        | zero =>
          cases hr
          exact ⟨[], raw, raws, rfl, rfl, here⟩
        | succ i =>
          obtain ⟨pre, found, post, rfl, count, assembled⟩ := ih later hr
          refine ⟨raw :: pre, found, post, rfl, ?_, ?_⟩
          · rw [List.countP_cons, count, ← bears]
            rfl
          · rw [List.length_cons, ← assembled]
            congr 2
            · omega
            · show slot + (i + 1) = slot + 1 + i
              omega

end SourceLine

end Rv32i
