import Rv32i.Proofs.Assembly.FirstFault

/-!
# Two passes over a source

`Program.assemble` knows the labels of all lines before it looks at the first one. A source is
read from its start, though: a first pass binds labels and keeps the first error that it meets, a
second one reads the statements, numbers them again and stops where the first pass has failed. Each
of them meets some of the errors of a source, and neither in the order of its lines.

* `TwoPasses.split` drops the lines with nothing on them, `TwoPasses.Bound.read` is the first pass
  over one line, `TwoPasses.records` the second one, and `TwoPasses.parse` puts them together;
* `Bound.Binds`: after the first pass over some lines names mean what they mean in the table of
  those lines; `binds_foldl_read` says that this and the first error are right for all lines;
* `records_eq`: a second pass over lines that are left is assembling them, unless a label of theirs
  is wrong, and then it is cut short before that line;
* `TwoPasses.parse_eq`: two passes come to what one does.

The main statement, `earliest_fault_reported`, is about what either of them reports.
-/

namespace Rv32i

open Text SourceLine

namespace TwoPasses

/-! ## 1. The passes -/

/-- A line that is kept. -/
structure Line where
  /-- Its number, from one. -/
  number : Nat
  parts : Peeled

/-- The lines with something on them. -/
def split (number : Nat) : List (List Char) → List Line
  | [] => []
  | raw :: raws =>
    let parts := peelLabels (code raw)
    if parts.statement.isEmpty && parts.labels.isEmpty && parts.badLabel.isNone then
      split (number + 1) raws
    else
      ⟨number, parts⟩ :: split (number + 1) raws

/-- What the first pass has found out. -/
structure Bound where
  labels : LabelTable := {}
  /-- The first error. -/
  error : Option ParseError := none
  /-- The number of statements. -/
  slot : Nat := 0

namespace Bound

/-- An error is kept if it is the first one. -/
def report (b : Bound) (error : ParseError) : Bound :=
  { b with error := b.error.or (some error) }

/-- A label on a line is bound unless its name is bound already. -/
def define (b : Bound) (number : Nat) (d : LabelDef) : Bound :=
  match b.labels.find? d.name with
  | some first => b.report ⟨number, .duplicateLabel d.name first.line⟩
  | none => { b with labels := ⟨b.labels.defs ++ [d]⟩ }

/-- The first pass over the labels of a line. -/
def readLabels (b : Bound) (line : Line) : Bound :=
  (line.parts.labels.mapIdx fun column name => ⟨name, b.slot, line.number, column⟩).foldl
    (define · line.number) b

/-- The first pass over what should be a label of a line and is none. -/
def readBadLabel (b : Bound) (line : Line) : Bound :=
  match line.parts.badLabel with
  | some text => b.report ⟨line.number, .invalidLabel text⟩
  | none => b

/-- The first pass over the statement of a line, which is only counted. -/
def countStatement (b : Bound) (line : Line) : Bound :=
  if line.parts.statement.isEmpty then b else { b with slot := b.slot + 1 }

/-- The first pass over a line. -/
def read (b : Bound) (line : Line) : Bound :=
  ((b.readLabels line).readBadLabel line).countStatement line

end Bound

/-- The second pass: the records of statements, up to the line to stop at. The number of records is
    the slot of the next one. -/
def records (labels : LabelTable) (stop : Option Nat) (done : Array Record) :
    List Line → Except ParseError (Array Record)
  | [] => .ok done
  | line :: rest =>
    if line.parts.statement.isEmpty then records labels stop done rest
    else if stop.any (· ≤ line.number) then .ok done
    else do
      let record ← (Statement.assemble labels done.size line.number line.parts.statement).mapError
        (ParseError.mk line.number)
      records labels stop (done.push record) rest

/-- What the passes have come to. The error of the first pass is reported if the second has none. -/
def finish (bound : Bound) (records : Array Record) : Except ParseError Program :=
  match bound.error with
  | some error => .error error
  | none => .ok ⟨records, bound.labels⟩

/-- The program of a source text, in two passes. -/
def parse (source : String) : Except ParseError Program := do
  let kept := split 1 (lines source.toList)
  let bound := kept.foldl Bound.read {}
  let records ← records bound.labels (bound.error.map ParseError.line) #[] kept
  finish bound records

/-! ## 2. The first pass -/

/-- **The names bound so far** mean the first of some definitions, and unless there was an error
    those are all that there are. -/
structure Bound.Binds (b : Bound) (defs : List LabelDef) : Prop where
  find : ∀ name, b.labels.find? name = LabelTable.find? ⟨defs⟩ name
  all : b.error = none → b.labels.defs = defs

/-- The error of a definition on a line that repeats another. -/
def redefinition? (labels : LabelTable) (number : Nat) (d : LabelDef) : Option ParseError :=
  (labels.redefined? d).map fun first => ⟨number, .duplicateLabel first.name first.line⟩

/-- The first error of a line's labels. -/
def labelError? (labels : LabelTable) (line : SourceLine) : Option ParseError :=
  (line.labelFault? labels).map (ParseError.mk line.number)

section

variable {labels : LabelTable} {before after : List LabelDef} {b : Bound} {number : Nat}

theorem find?_append (labels : LabelTable) (defs : List LabelDef) (name : String) :
    LabelTable.find? ⟨labels.defs ++ defs⟩ name =
      (labels.find? name).or (LabelTable.find? ⟨defs⟩ name) :=
  List.find?_append

/-- **What a definition repeats stands before it**, so it is known when the definition is read. -/
theorem redefined?_eq {d : LabelDef} (sorted : labels.defs.Pairwise LabelDef.Before)
    (defs : labels.defs = before ++ d :: after) :
    labels.redefined? d = LabelTable.find? ⟨before⟩ d.name := by
  have own : LabelTable.find? ⟨d :: after⟩ d.name = some d :=
    List.find?_cons_of_pos (decide_eq_true rfl)
  have found : labels.find? d.name = (LabelTable.find? ⟨before⟩ d.name).or (some d) := by
    rw [← own, ← find?_append, ← defs]
  rw [LabelTable.redefined?, found]
  cases earlier : LabelTable.find? ⟨before⟩ d.name with
  | none => simp
  | some first =>
    have other : first ≠ d := by
      have mem : first ∈ before := List.mem_of_find?_eq_some earlier
      rw [defs] at sorted
      have apart := (List.pairwise_append.mp sorted).2.2 first mem d List.mem_cons_self
      intro same
      rw [same] at apart
      exact apart.asymm apart
    simp [other]

theorem Bound.Binds.report (binds : b.Binds before) (error : ParseError) :
    (b.report error).Binds before where
  find := binds.find
  all clean := by
    have none : b.error.or (some error) = none := clean
    simp at none

/-- A label that is read is bound, or it is too late and reported. -/
theorem Bound.Binds.define {d : LabelDef} (binds : b.Binds before)
    (sorted : labels.defs.Pairwise LabelDef.Before) (defs : labels.defs = before ++ d :: after) :
    (b.define number d).Binds (before ++ [d]) ∧ (b.define number d).slot = b.slot ∧
      (b.define number d).error = b.error.or (redefinition? labels number d) := by
  rw [redefinition?, redefined?_eq sorted defs, Bound.define, binds.find]
  cases earlier : LabelTable.find? ⟨before⟩ d.name with
  | some first =>
    have known (name : String) :
        LabelTable.find? ⟨before ++ [d]⟩ name = LabelTable.find? ⟨before⟩ name := by
      rw [find?_append]
      by_cases same : d.name = name
      · rw [← same, earlier]
        rfl
      · have missing : LabelTable.find? ⟨[d]⟩ name = none :=
          List.find?_cons_of_neg (by simpa using same)
        rw [missing, Option.or_none]
    have reported := binds.report ⟨number, .duplicateLabel d.name first.line⟩
    refine ⟨⟨fun name => (reported.find name).trans (known name).symm, fun clean => ?_⟩, rfl, ?_⟩
    · have none : b.error.or (some _) = none := clean
      simp at none
    · rw [Option.map_some, LabelTable.name_of_find? earlier]
      rfl
  | none =>
    refine ⟨⟨fun name => ?_, fun clean => ?_⟩, rfl, (Option.or_none).symm⟩
    · rw [find?_append, find?_append, binds.find]
    · exact congrArg (· ++ [d]) (binds.all clean)

/-- **The labels of a line are bound one after the other**, and the first that is bound already is
    the error. -/
theorem Bound.Binds.foldl_define {ds : List LabelDef} (binds : b.Binds before)
    (sorted : labels.defs.Pairwise LabelDef.Before) (defs : labels.defs = before ++ ds ++ after) :
    (ds.foldl (Bound.define · number) b).Binds (before ++ ds) ∧
      (ds.foldl (Bound.define · number) b).slot = b.slot ∧
      (ds.foldl (Bound.define · number) b).error =
        b.error.or (ds.findSome? (redefinition? labels number)) := by
  induction ds generalizing before b with
  | nil =>
    rw [List.append_nil, List.findSome?_nil, Option.or_none]
    exact ⟨binds, rfl, rfl⟩
  | cons d ds ih =>
    have here : labels.defs = before ++ d :: (ds ++ after) := by
      rw [defs, List.append_assoc, List.cons_append]
    have there : labels.defs = (before ++ [d]) ++ ds ++ after := by
      rw [defs, List.append_assoc before [d] ds, List.singleton_append]
    obtain ⟨bindsOne, slotOne, errorOne⟩ := binds.define sorted here
    obtain ⟨bindsAll, slotAll, errorAll⟩ := ih bindsOne there
    rw [List.append_assoc, List.singleton_append] at bindsAll
    refine ⟨bindsAll, slotAll.trans slotOne, ?_⟩
    rw [List.foldl_cons, errorAll, errorOne, Option.or_assoc, List.findSome?_cons]
    cases redefinition? labels number d with
    | none => rfl
    | some error => rfl

theorem Bound.Binds.readBadLabel (binds : b.Binds before) (line : Line) :
    (b.readBadLabel line).Binds before ∧ (b.readBadLabel line).slot = b.slot ∧
      (b.readBadLabel line).error =
        b.error.or (line.parts.badLabel.map fun text => ⟨line.number, .invalidLabel text⟩) := by
  unfold Bound.readBadLabel
  cases line.parts.badLabel with
  | none => exact ⟨binds, rfl, Option.or_none.symm⟩
  | some text => exact ⟨binds.report _, rfl, rfl⟩

theorem Bound.Binds.countStatement (binds : b.Binds before) (line : Line) :
    (b.countStatement line).Binds before ∧
      (b.countStatement line).slot =
        (if line.parts.statement.isEmpty then b.slot else b.slot + 1) ∧
      (b.countStatement line).error = b.error := by
  unfold Bound.countStatement
  cases line.parts.statement.isEmpty with
  | true => exact ⟨binds, rfl, rfl⟩
  | false => exact ⟨⟨binds.find, binds.all⟩, rfl, rfl⟩

/-- The first error of a line's labels is one of a definition, or what should be a label. -/
theorem labelError?_eq (labels : LabelTable) (line : SourceLine) :
    labelError? labels line = (line.definitions.findSome? (redefinition? labels line.number)).or
      (line.badLabel.map fun text => ⟨line.number, .invalidLabel text⟩) := by
  have repeated : line.definitions.findSome? (redefinition? labels line.number) =
      (line.definitions.findSome? labels.redefined?).map fun first =>
        ⟨line.number, .duplicateLabel first.name first.line⟩ := by
    rw [List.map_findSome?]
    rfl
  rw [repeated, labelError?, labelFault?]
  cases line.definitions.findSome? labels.redefined? with
  | some first => rfl
  | none => cases line.badLabel <;> rfl

/-- **The first pass over a line.** -/
theorem Bound.Binds.read {raw : List Char} (binds : b.Binds before)
    (sorted : labels.defs.Pairwise LabelDef.Before)
    (defs : labels.defs = before ++ (ofText number b.slot raw).definitions ++ after) :
    let read := b.read ⟨number, peelLabels (code raw)⟩
    let line := ofText number b.slot raw
    read.Binds (before ++ line.definitions) ∧ read.slot = line.nextSlot ∧
      read.error = b.error.or (labelError? labels line) := by
  intro read line
  obtain ⟨bindsLabels, slotLabels, errorLabels⟩ :
      (b.readLabels ⟨number, peelLabels (code raw)⟩).Binds (before ++ line.definitions) ∧
      (b.readLabels ⟨number, peelLabels (code raw)⟩).slot = b.slot ∧
      (b.readLabels ⟨number, peelLabels (code raw)⟩).error =
        b.error.or (line.definitions.findSome? (redefinition? labels number)) :=
    binds.foldl_define sorted defs
  obtain ⟨bindsBad, slotBad, errorBad⟩ :=
    bindsLabels.readBadLabel ⟨number, peelLabels (code raw)⟩
  obtain ⟨bindsAll, slotAll, errorAll⟩ := bindsBad.countStatement ⟨number, peelLabels (code raw)⟩
  refine ⟨bindsAll, ?_, ?_⟩
  · refine slotAll.trans ?_
    rw [slotBad, slotLabels]
    rfl
  · rw [labelError?_eq, ← Option.or_assoc]
    exact (errorAll.trans errorBad).trans (congrArg (Option.or · _) errorLabels)

/-- A line with nothing on it has no label and no statement. -/
theorem blank_line {number slot : Nat} {raw : List Char}
    (blank : ((peelLabels (code raw)).statement.isEmpty && (peelLabels (code raw)).labels.isEmpty &&
      (peelLabels (code raw)).badLabel.isNone) = true) :
    (ofText number slot raw).definitions = [] ∧ (ofText number slot raw).nextSlot = slot ∧
      labelError? labels (ofText number slot raw) = none := by
  rw [Bool.and_eq_true, Bool.and_eq_true] at blank
  obtain ⟨⟨statement, noLabels⟩, noBad⟩ := blank
  have definitions : (ofText number slot raw).definitions = [] := by
    rw [SourceLine.definitions]
    show (peelLabels (code raw)).labels.mapIdx _ = []
    rw [List.isEmpty_iff.mp noLabels]
    rfl
  refine ⟨definitions, if_pos statement, ?_⟩
  rw [labelError?_eq, definitions]
  show ((peelLabels (code raw)).badLabel.map _) = none
  rw [Option.isNone_iff_eq_none.mp noBad]
  rfl

/-- **The first pass over a source** binds its labels and finds the first error of a label. -/
theorem Bound.Binds.foldl_read {slot : Nat} {raws : List (List Char)} (binds : b.Binds before)
    (sorted : labels.defs.Pairwise LabelDef.Before) (here : b.slot = slot)
    (defs : labels.defs = before ++ (place [] number slot raws).flatMap SourceLine.definitions) :
    ((split number raws).foldl Bound.read b).Binds labels.defs ∧
      ((split number raws).foldl Bound.read b).error =
        b.error.or ((place [] number slot raws).findSome? (labelError? labels)) := by
  induction raws generalizing before b number slot with
  | nil =>
    have all : labels.defs = before := defs.trans (List.append_nil _)
    rw [all]
    exact ⟨binds, Option.or_none.symm⟩
  | cons raw raws ih =>
    subst here
    rw [place_cons, List.flatMap_cons, ← List.append_assoc] at defs
    rw [place_cons, List.findSome?_cons]
    cases blank : (peelLabels (code raw)).statement.isEmpty &&
        (peelLabels (code raw)).labels.isEmpty && (peelLabels (code raw)).badLabel.isNone with
    | true =>
      have dropped : split number (raw :: raws) = split (number + 1) raws := if_pos blank
      obtain ⟨noDefinition, nextSlot, noError⟩ := blank_line blank
      rw [noDefinition, List.append_nil] at defs
      rw [dropped, noError]
      exact ih binds nextSlot.symm defs
    | false =>
      have kept : split number (raw :: raws) =
          ⟨number, peelLabels (code raw)⟩ :: split (number + 1) raws :=
        if_neg (Bool.eq_false_iff.mp blank)
      obtain ⟨bindsLine, slotLine, errorLine⟩ := binds.read sorted defs
      obtain ⟨bindsAll, errorAll⟩ := ih bindsLine slotLine defs
      rw [kept, List.foldl_cons]
      refine ⟨bindsAll, ?_⟩
      rw [errorAll, errorLine, Option.or_assoc]
      cases labelError? labels (ofText number b.slot raw) with
      | some error => rfl
      | none => rfl

end

/-! ## 3. The second pass -/

/-- Only the slots of names decide how a statement assembles. -/
theorem assemble_congr {labels other : LabelTable}
    (same : ∀ name, labels.slot? name = other.slot? name) (slot line : Nat) (text : List Char) :
    Statement.assemble labels slot line text = Statement.assemble other slot line text := by
  have target : Operands.target labels = Operands.target other := by
    funext slot field part
    simp only [Operands.target, same]
  unfold Statement.assemble Statement.readOperands
  rw [target]

section

variable {labels other : LabelTable} {number slot : Nat} {raws : List (List Char)}

theorem le_number_of_mem_split {line : Line} (mem : line ∈ split number raws) :
    number ≤ line.number := by
  induction raws generalizing number with
  | nil => cases mem
  | cons raw raws ih =>
    rw [split] at mem
    split at mem
    · have := ih mem
      omega
    · rcases List.mem_cons.mp mem with rfl | later
      · exact Nat.le_refl _
      · have := ih later
        omega

/-- Behind the line to stop at nothing is read. -/
theorem records_of_stop {stop : Nat} (done : Array Record) {kept : List Line}
    (behind : ∀ line ∈ kept, stop ≤ line.number) :
    records labels (some stop) done kept = .ok done := by
  induction kept with
  | nil => rfl
  | cons line kept ih =>
    have later := ih fun l mem => behind l (List.mem_cons_of_mem _ mem)
    rw [records]
    split
    · exact later
    · exact if_pos (decide_eq_true (behind line List.mem_cons_self))

/-- An error of a label is on its line. -/
theorem le_line_of_findSome? {error : ParseError}
    (found : (place [] number slot raws).findSome? (labelError? labels) = some error) :
    number ≤ error.line := by
  obtain ⟨line, mem, wrong⟩ := List.exists_of_findSome?_eq_some found
  obtain ⟨pre, raw, post, -, rfl⟩ := mem_place.mp mem
  obtain ⟨fault, -, rfl⟩ := Option.map_eq_some_iff.mp wrong
  exact Nat.le_add_right number pre.length

/-- A line without a statement is passed over, whether it is kept or not. -/
theorem records_split_of_empty {raw : List Char} (stop : Option Nat) (done : Array Record)
    (empty : (peelLabels (code raw)).statement.isEmpty = true) :
    records labels stop done (split number (raw :: raws)) =
      records labels stop done (split (number + 1) raws) := by
  rw [split]
  split
  · rfl
  · exact if_pos empty

theorem split_of_statement {raw : List Char}
    (stated : (peelLabels (code raw)).statement.isEmpty = false) :
    split number (raw :: raws) = ⟨number, peelLabels (code raw)⟩ :: split (number + 1) raws := by
  refine if_neg ?_
  rw [stated]
  exact nofun

theorem assemble_of_labelError? {line : SourceLine} {error : ParseError}
    (wrong : labelError? labels line = some error) :
    line.assemble labels = .error error ∧ error.line = line.number := by
  obtain ⟨fault, found, rfl⟩ := Option.map_eq_some_iff.mp wrong
  rw [SourceLine.assemble, found]
  exact ⟨rfl, rfl⟩

/-- The first line that is left contributes what it does, and then come the others. -/
theorem assemble_cons {line : SourceLine} {result : Option Record} {lines : List SourceLine}
    (here : line.assemble labels = .ok result) (done : Array Record) (table : LabelTable) :
    (do
      let results ← (line :: lines).mapM (SourceLine.assemble labels)
      return (⟨done ++ (results.filterMap id).toArray, table⟩ : Program)) =
    (do
      let results ← lines.mapM (SourceLine.assemble labels)
      return ⟨done ++ ((result :: results).filterMap id).toArray, table⟩) := by
  rw [List.mapM_cons, here, ok_bind]
  cases lines.mapM (SourceLine.assemble labels) <;> rfl

/-- **The second pass over lines that are left** is assembling them, if what is left of the first
    pass is the first error of their labels. -/
theorem records_eq (same : ∀ name, other.slot? name = labels.slot? name) {bound : Bound}
    (error : bound.error = (place [] number slot raws).findSome? (labelError? labels))
    (done : Array Record) (size : done.size = slot) :
    (records other (bound.error.map ParseError.line) done (split number raws) >>= finish bound) =
      (do
        let results ← (place [] number slot raws).mapM (SourceLine.assemble labels)
        return ⟨done ++ (results.filterMap id).toArray, bound.labels⟩) := by
  induction raws generalizing number slot done with
  | nil =>
    have clean : bound.error = none := error
    show finish bound done = .ok ⟨done ++ #[], bound.labels⟩
    rw [finish, clean, Array.append_empty]
  | cons raw raws ih =>
    rw [place_cons, List.findSome?_cons] at error
    rw [place_cons]
    cases wrong : labelError? labels (ofText number slot raw) with
    | some cause =>
      -- the second pass stops before this line, and the error of the first one is left
      rw [wrong] at error
      obtain ⟨fails, line⟩ := assemble_of_labelError? wrong
      have behind : ∀ l ∈ split number (raw :: raws), cause.line ≤ l.number := fun l mem =>
        line ▸ le_number_of_mem_split mem
      rw [error, Option.map_some, records_of_stop done behind, List.mapM_cons, fails]
      show finish bound done = _
      rw [finish, error]
      rfl
    | none =>
      rw [wrong] at error
      have clean : (ofText number slot raw).labelFault? labels = none :=
        Option.map_eq_none_iff.mp wrong
      have goesOn : (bound.error.map ParseError.line).any (· ≤ number) = false := by
        cases later : bound.error with
        | none => rfl
        | some cause =>
          have := le_line_of_findSome? (error.symm.trans later)
          exact decide_eq_false (by omega)
      cases stated : (peelLabels (code raw)).statement.isEmpty with
      | true =>
        have here : (ofText number slot raw).assemble labels = .ok none :=
          SourceLine.assemble_eq_ok_iff.mpr
            ⟨clean, statement?_eq_ok_iff.mpr (.inl ⟨stated, rfl⟩)⟩
        have nextSlot : (ofText number slot raw).nextSlot = slot := if_pos stated
        rw [nextSlot] at error ⊢
        rw [records_split_of_empty _ _ stated, ih error done size, assemble_cons here]
        rfl
      | false =>
        have nextSlot : (ofText number slot raw).nextSlot = slot + 1 :=
          if_neg (Bool.eq_false_iff.mp stated)
        rw [nextSlot] at error ⊢
        have bears : ¬ (peelLabels (code raw)).statement.isEmpty = true := by simp [stated]
        rw [split_of_statement stated, records, if_neg bears, goesOn, if_neg Bool.false_ne_true,
          assemble_congr same, size]
        cases read : Statement.assemble labels slot number (peelLabels (code raw)).statement with
        | error fault =>
          have failed : (ofText number slot raw).statement? labels = .error fault := by
            rw [statement?]
            exact (if_neg bears).trans (congrArg (Except.map some) read)
          have fails : (ofText number slot raw).assemble labels = .error ⟨number, fault⟩ := by
            rw [SourceLine.assemble, clean, failed]
            rfl
          rw [List.mapM_cons, fails]
          rfl
        | ok r =>
          have here : (ofText number slot raw).assemble labels = .ok (some r) :=
            SourceLine.assemble_eq_ok_iff.mpr
              ⟨clean, statement?_eq_ok_iff.mpr (.inr ⟨stated, r, rfl, read⟩)⟩
          have pushed : (done.push r).size = slot + 1 := by rw [Array.size_push, size]
          show records other _ (done.push r) _ >>= _ = _
          rw [ih error (done.push r) pushed, assemble_cons here]
          simp

end

/-! ## 4. Both passes -/

/-- **Two passes come to what one does**, which knows all labels before it starts. -/
theorem parse_eq (source : String) : parse source = Program.parse source := by
  let raws := lines source.toList
  let bound := (split 1 raws).foldl Bound.read {}
  have start : Bound.Binds {} [] := ⟨fun _ => rfl, fun _ => rfl⟩
  have first : bound.Binds (tableOf raws).defs ∧
      bound.error = (place [] 1 0 raws).findSome? (labelError? (tableOf raws)) :=
    start.foldl_read (pairwise_tableOf raws) rfl rfl
  have same (name : String) : bound.labels.slot? name = (tableOf raws).slot? name :=
    congrArg (Option.map LabelDef.slot) (first.1.find name)
  have second : parse source = _ := records_eq same first.2 #[] rfl
  rw [second, Program.parse, Program.assemble, SourceLine.all]
  cases result : (place [] 1 0 raws).mapM (SourceLine.assemble (tableOf raws)) with
  | error error => rfl
  | ok results =>
    -- no label is wrong, so all of them have been bound
    have clean : bound.error = none := by
      rw [first.2, List.findSome?_eq_none_iff]
      intro line mem
      obtain ⟨_, assembled⟩ := assembles_of_mem (mapM_eq_ok_iff.mp result) mem
      exact Option.map_eq_none_iff.mpr (SourceLine.assemble_eq_ok_iff.mp assembled).1
    have table : bound.labels = tableOf raws := congrArg LabelTable.mk (first.1.all clean)
    rw [table, ok_bind, ok_bind, Array.empty_append]

end TwoPasses

/-- **The earliest fault is reported.** Names mean the labels that stand first, with the slots of
    their lines, whatever is wrong with the source. A source parses exactly if no line has a fault:
    a label that is not the first of its name, something else before a colon, or a statement that
    does not assemble at the slot of its line with all those labels. If it does not parse, the
    error is the first fault, line by line and on its line from left to right, labels before the
    statement; of a label that is defined again it names the line of the first definition. So it is
    if the source is read in two passes, none of which meets all faults. -/
theorem earliest_fault_reported (source : String) :
    TwoPasses.parse source = Program.parse source ∧
    (∀ name slot, (tableOf (lines source.toList)).slot? name = some slot ↔
      ∃ n column, FirstLabelAt (lines source.toList) n column name ∧
        slot = slotAt (lines source.toList) n) ∧
    ((∃ program, Program.parse source = .ok program) ↔
      ∀ n place fault, ¬ FaultAt (lines source.toList) n place fault) ∧
    ∀ error, Program.parse source = .error error ↔
      ∃ n place, error.line = n + 1 ∧
        FirstFaultAt (lines source.toList) n place error.fault :=
  ⟨TwoPasses.parse_eq source, fun _ _ => slot?_tableOf, Program.exists_assemble_eq_ok_iff,
    fun _ => Program.assemble_eq_error_iff⟩

/-- A jump over a wrong line is in order. What is wrong with that line is its label first, then its
    statement. -/
theorem earliest_fault_reported_label :
    let source := "jal x0, end\na: hlt\na: bogus\nend: 1x: hlt"
    TwoPasses.parse source = .error ⟨3, .duplicateLabel "a" 2⟩ ∧
      ∃ place, FirstFaultAt (lines source.toList) 2 place (.duplicateLabel "a" 2) := by
  intro source
  have failed : Program.parse source = .error ⟨3, .duplicateLabel "a" 2⟩ :=
    Program.assemble_eq_error_iff_findSome?.mpr (by decide +kernel)
  obtain ⟨twoPasses, -, -, reported⟩ := earliest_fault_reported source
  obtain ⟨n, place, line, first⟩ := (reported _).mp failed
  cases line
  exact ⟨twoPasses.trans failed, place, first⟩

end Rv32i
