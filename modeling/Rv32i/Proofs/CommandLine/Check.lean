import Rv32i.CommandLine.Perform
import Rv32i.Proofs.Machine.BoundedRun
import Rv32i.Proofs.Session.Invariant

/-!
# What a check says about a run

A check decodes every record of a program, one after the other, and stops at the first that is no
instruction. A run decodes a record whenever the program counter comes to it, and a loop may keep it
from some records for ever. So a check may fail where a run does not, but not the other way round.

* `Program.FailsAt` is a slot whose record does not decode; `Program.Decodes` says that there is
  none;
* `checkRecords_eq_none_iff`, `checkRecords_eq_some_iff`: a check finds the first such slot;
* `Machine.failsAt_of_run`: a run that fails to decode has stopped at such a slot.

The main statement is `check_foresees_run`.
-/

namespace Rv32i

/-! ## 1. Records that do not decode -/

namespace Program

/-- The record at a slot does not decode, for the reason given. -/
def FailsAt (program : Program) (slot : Nat) (error : DecodeError) : Prop :=
  ∃ r, program.record? slot = some r ∧ r.decode = .error error

/-- Every record decodes. -/
def Decodes (program : Program) : Prop :=
  ∀ slot r, program.record? slot = some r → ∃ i, r.decode = .ok i

/-- The first slot whose record does not decode. -/
structure FirstFailsAt (program : Program) (slot : Nat) (error : DecodeError) : Prop where
  fails : program.FailsAt slot error
  before : ∀ s < slot, ∀ e, ¬ program.FailsAt s e

variable {program : Program} {slot : Nat} {error : DecodeError}

theorem Decodes.not_failsAt (decodes : program.Decodes) : ¬ program.FailsAt slot error := by
  intro ⟨r, fetched, fails⟩
  obtain ⟨i, decoded⟩ := decodes slot r fetched
  cases fails.symm.trans decoded

/-- No slot that fails comes before the first one. -/
theorem FirstFailsAt.le {s : Nat} {e : DecodeError} (first : program.FirstFailsAt slot error)
    (fails : program.FailsAt s e) : slot ≤ s :=
  Nat.le_of_not_lt fun lt => first.before s lt e fails

end Program

/-! ## 2. Checking -/

section

variable {styled : Bool} {printed : List String} {records : List Record} {error : DecodeError}

/-- A check finds nothing exactly if every record decodes. -/
theorem checkRecords_eq_none_iff :
    (checkRecords styled printed records).2 = none ↔ ∀ r ∈ records, ∃ i, r.decode = .ok i := by
  induction records generalizing printed with
  | nil => exact ⟨fun _ _ mem => absurd mem List.not_mem_nil, fun _ => rfl⟩
  | cons r records ih =>
    rw [List.forall_mem_cons, checkRecords]
    cases decoded : r.decode with
    | ok i => exact ih.trans ⟨fun later => ⟨⟨i, rfl⟩, later⟩, And.right⟩
    | error e => exact ⟨nofun, fun ⟨⟨_, ok⟩, _⟩ => nomatch ok⟩

/-- **A check finds an error exactly if it is that of the first record** that does not decode. -/
theorem checkRecords_eq_some_iff :
    (checkRecords styled printed records).2 = some error ↔
      ∃ (slot : Nat) (r : Record), records[slot]? = some r ∧ r.decode = .error error ∧
        ∀ q ∈ records.take slot, ∃ i, q.decode = .ok i := by
  induction records generalizing printed with
  | nil => exact ⟨nofun, fun ⟨_, _, fetched, _⟩ => nomatch fetched⟩
  | cons r records ih =>
    rw [checkRecords]
    cases decoded : r.decode with
    | ok i =>
      rw [ih]
      constructor
      · intro ⟨slot, q, fetched, fails, before⟩
        exact ⟨slot + 1, q, fetched, fails, List.forall_mem_cons.mpr ⟨⟨i, decoded⟩, before⟩⟩
      · intro ⟨slot, q, fetched, fails, before⟩
        cases slot with
        | zero =>
          cases fetched
          cases decoded.symm.trans fails
        | succ slot => exact ⟨slot, q, fetched, fails, (List.forall_mem_cons.mp before).2⟩
    | error e =>
      constructor
      · intro found
        cases found
        exact ⟨0, r, rfl, decoded, fun _ mem => absurd mem List.not_mem_nil⟩
      · intro ⟨slot, q, fetched, fails, before⟩
        cases slot with
        | zero =>
          cases fetched
          cases decoded.symm.trans fails
          rfl
        | succ slot =>
          obtain ⟨i, ok⟩ := before r List.mem_cons_self
          cases decoded.symm.trans ok

end

namespace Program

variable {program : Program} {styled : Bool}

theorem checkRecords_decodes_iff :
    (checkRecords styled [] program.records.toList).2 = none ↔ program.Decodes := by
  rw [checkRecords_eq_none_iff]
  constructor
  · intro each slot r fetched
    exact each r (Array.mem_def.mp (Array.mem_of_getElem? fetched))
  · intro decodes r mem
    obtain ⟨slot, fetched⟩ := Array.getElem?_of_mem (Array.mem_def.mpr mem)
    exact decodes slot r fetched

theorem firstFailsAt_of_checkRecords {error : DecodeError}
    (found : (checkRecords styled [] program.records.toList).2 = some error) :
    ∃ slot, program.FirstFailsAt slot error := by
  obtain ⟨slot, r, fetched, fails, before⟩ := checkRecords_eq_some_iff.mp found
  rw [Array.getElem?_toList] at fetched
  refine ⟨slot, ⟨r, fetched, fails⟩, ?_⟩
  intro s lt e ⟨q, earlier, undecoded⟩
  have mem : q ∈ program.records.toList.take slot := by
    refine List.mem_of_getElem? (i := s) ?_
    rw [List.getElem?_take_of_lt lt, Array.getElem?_toList]
    exact earlier
  obtain ⟨i, ok⟩ := before q mem
  cases undecoded.symm.trans ok

end Program

/-! ## 3. Running -/

/-- **A run that fails to decode stops at the record it failed to decode.** -/
theorem Machine.failsAt_of_run {program : Program} {m : Machine} {error : DecodeError}
    (failed : (m.run program).1 = .error (.decode error)) :
    program.FailsAt (m.run program).2.hart.pc.toNat error := by
  rcases run_eq_error_iff.mp failed with ⟨k, l, stops, lt, step⟩ | ⟨limit, -⟩
  · rw [run_of_stops stops lt]
    rcases stepped : l.step program with ⟨result, after⟩
    rw [stepped] at step
    subst step
    cases Attempt.of_step stepped with
    | undecodable _ fetch decode => exact ⟨_, fetch, decode⟩
  · cases limit

/-- A run of a machine succeeds, fails to decode, fails with a fault, or comes to its limit. -/
theorem Machine.run_outcome (program : Program) (m : Machine) :
    (∃ steps, (m.run program).1 = .ok steps) ∨
    (∃ error, (m.run program).1 = .error (.decode error)) ∨
    (∃ line cause, (m.run program).1 = .error (.fault line cause)) ∨
    (m.run program).1 = .error (.stepLimit m.maxSteps) := by
  rcases ran : (m.run program).1 with error | steps
  · cases error with
    | decode error => exact .inr (.inl ⟨error, rfl⟩)
    | fault line cause => exact .inr (.inr (.inl ⟨line, cause, rfl⟩))
    | stepLimit n =>
      rcases run_eq_error_iff.mp ran with ⟨_, l, _, _, failed⟩ | ⟨limit, -⟩
      · exact absurd failed (step_ne_stepLimit program l n)
      · cases limit
        exact .inr (.inr (.inr rfl))
  · exact .inl ⟨steps, rfl⟩

/-- What a session makes of a run of its machine. -/
theorem Session.run_of_parsed (session : Session) {source : String} {program : Program}
    (parsed : Program.parse source = .ok program) :
    session.run source =
      (((session.machine.reset.run program).1.mapError .machine).map
          fun steps => ⟨.ofHart (session.machine.reset.run program).2.hart, steps⟩,
        { session with machine := (session.machine.reset.run program).2 }) := by
  rcases ran : session.machine.reset.run program with ⟨error | steps, machine⟩
  · exact run_of_error session parsed ran
  · exact run_of_ok session parsed ran

/-- A run of a session that fails to decode has parsed, and stops as its machine does. -/
theorem Session.failsAt_of_run {session : Session} {source : String} {error : DecodeError}
    (failed : (session.run source).1 = .error (.machine (.decode error))) :
    ∃ program, Program.parse source = .ok program ∧
      program.FailsAt (session.run source).2.machine.hart.pc.toNat error := by
  rcases session.run_cases source with ⟨e, unparsed⟩ | ⟨program, parsed, after⟩
  · rw [unparsed] at failed
    cases failed
  · refine ⟨program, parsed, ?_⟩
    rw [after]
    refine Machine.failsAt_of_run ?_
    rw [session.run_of_parsed parsed] at failed
    cases result : (session.machine.reset.run program).1 with
    | error e =>
      rw [result] at failed
      cases failed
      rfl
    | ok steps =>
      rw [result] at failed
      cases failed

/-- A run of a program that decodes ends well, with a fault or at the limit. -/
theorem Session.run_of_decodes (session : Session) {source : String} {program : Program}
    (parsed : Program.parse source = .ok program) (decodes : program.Decodes) :
    (∃ output, (session.run source).1 = .ok output) ∨
    (∃ line cause, (session.run source).1 = .error (.machine (.fault line cause))) ∨
    (session.run source).1 = .error (.machine (.stepLimit session.machine.maxSteps)) := by
  rw [session.run_of_parsed parsed]
  rcases session.machine.reset.run_outcome program with
    ⟨steps, ok⟩ | ⟨e, failed⟩ | ⟨line, cause, failed⟩ | limit
  · rw [ok]
    exact .inl ⟨_, rfl⟩
  · exact absurd (Machine.failsAt_of_run failed) decodes.not_failsAt
  · rw [failed]
    exact .inr (.inl ⟨line, cause, rfl⟩)
  · rw [limit]
    exact .inr (.inr rfl)

/-! ## 4. What a check foresees -/

section

variable {read : String → Id (Except ReadError String)} {file source : String}
  (styled : Bool) (options : Options)

theorem readSource_of_ok (readable : read file = .ok source) :
    readSource read file = pure source := by
  simp only [readSource, readable]
  rfl

/-- A check of a source that does not parse fails with the error of parsing. -/
theorem perform_check_of_error (readable : read file = .ok source) {error : ParseError}
    (failed : Program.parse source = .error error) :
    ((Command.check file).perform read styled options).run =
      .error (.session file (.parse error)) := by
  rw [Command.perform, readSource_of_ok readable, pure_bind, failed]
  rfl

/-- A check of one that does is a check of its records. -/
theorem perform_check_of_parsed (readable : read file = .ok source) {program : Program}
    (parsed : Program.parse source = .ok program) :
    ∃ text, ((Command.check file).perform read styled options).run =
      .ok (text, (checkRecords styled [] program.records.toList).2.map (.decode file)) := by
  rw [Command.perform, readSource_of_ok readable, pure_bind, parsed]
  dsimp only
  rcases checkRecords styled [] program.records.toList with ⟨lines, _ | error⟩
  · exact ⟨String.join (lines ++ labelLines styled program.labels), rfl⟩
  · exact ⟨String.join lines, rfl⟩

/-- A check succeeds exactly if the source parses and every record decodes. -/
theorem perform_check_succeeds_iff (readable : read file = .ok source) :
    (∃ text, ((Command.check file).perform read styled options).run = .ok (text, none)) ↔
      ∃ program, Program.parse source = .ok program ∧ program.Decodes := by
  cases parsed : Program.parse source with
  | error error =>
    rw [perform_check_of_error styled options readable parsed]
    exact ⟨nofun, nofun⟩
  | ok program =>
    obtain ⟨text, checked⟩ := perform_check_of_parsed styled options readable parsed
    rw [checked]
    constructor
    · intro ⟨_, eq⟩
      exact ⟨program, rfl, Program.checkRecords_decodes_iff.mp
        (Option.map_eq_none_iff.mp (congrArg Prod.snd (Except.ok.inj eq)))⟩
    · intro ⟨_, same, decodes⟩
      cases same
      rw [Program.checkRecords_decodes_iff.mpr decodes]
      exact ⟨text, rfl⟩

/-- Where a record does not decode, a check names the first one there or before. -/
theorem perform_check_of_failsAt (readable : read file = .ok source) {program : Program}
    (parsed : Program.parse source = .ok program) {slot : Nat} {error : DecodeError}
    (fails : program.FailsAt slot error) :
    ∃ text first e, ((Command.check file).perform read styled options).run =
      .ok (text, some (.decode file e)) ∧ program.FirstFailsAt first e ∧ first ≤ slot := by
  obtain ⟨text, checked⟩ := perform_check_of_parsed styled options readable parsed
  rw [checked]
  cases found : (checkRecords styled [] program.records.toList).2 with
  | none => exact absurd fails (Program.checkRecords_decodes_iff.mp found).not_failsAt
  | some e =>
    obtain ⟨first, firstFails⟩ := Program.firstFailsAt_of_checkRecords found
    exact ⟨text, first, e, rfl, firstFails, firstFails.le fails⟩

end

/-- **A check foresees every error of decoding.** A source that passes it, because it parses and
    every record decodes, runs to its end, to a refused access, to a jump before the program or to
    the limit of steps. One that it fails to parse fails to run, with the same error. And a run
    that fails to decode has left the program counter at a record with that error; the check names
    the first such record, there or before. -/
theorem check_foresees_run {read : String → Id (Except ReadError String)} {file source : String}
    (readable : read file = .ok source) (styled : Bool) (options : Options) (session : Session) :
    let checked := ((Command.check file).perform read styled options).run
    let ran := session.run source
    ((∃ text, checked = .ok (text, none)) ↔
      ∃ program, Program.parse source = .ok program ∧ program.Decodes) ∧
    ((∃ text, checked = .ok (text, none)) →
      (∃ output, ran.1 = .ok output) ∨
      (∃ line fault, ran.1 = .error (.machine (.fault line (.access fault)))) ∨
      (∃ line slot, ran.1 = .error (.machine (.fault line (.jumpTarget slot)))) ∨
      ran.1 = .error (.machine (.stepLimit session.machine.maxSteps))) ∧
    (∀ error, checked = .error (.session file (.parse error)) →
      ran = (.error (.parse error), session)) ∧
    ∀ error, ran.1 = .error (.machine (.decode error)) →
      ∃ program text slot first, Program.parse source = .ok program ∧
        checked = .ok (text, some (.decode file first)) ∧ program.FirstFailsAt slot first ∧
        slot ≤ ran.2.machine.hart.pc.toNat ∧
        program.FailsAt ran.2.machine.hart.pc.toNat error := by
  intro checked ran
  have succeeds := perform_check_succeeds_iff styled options readable
  refine ⟨succeeds, fun passes => ?_, fun error fails => ?_, fun error undecoded => ?_⟩
  · obtain ⟨program, parsed, decodes⟩ := succeeds.mp passes
    rcases session.run_of_decodes parsed decodes with ends | ⟨line, fault | slot, failed⟩ | limit
    · exact .inl ends
    · exact .inr (.inl ⟨line, fault, failed⟩)
    · exact .inr (.inr (.inl ⟨line, slot, failed⟩))
    · exact .inr (.inr (.inr limit))
  · cases parsed : Program.parse source with
    | error e =>
      have failed : checked = .error (.session file (.parse e)) :=
        perform_check_of_error styled options readable parsed
      cases failed.symm.trans fails
      exact Session.run_of_parse_error session parsed
    | ok program =>
      obtain ⟨text, found⟩ : ∃ text, checked = .ok (text, _) :=
        perform_check_of_parsed styled options readable parsed
      cases found.symm.trans fails
  · obtain ⟨program, parsed, there⟩ := Session.failsAt_of_run undecoded
    obtain ⟨text, slot, first, found, firstFails, le⟩ :=
      perform_check_of_failsAt styled options readable parsed there
    exact ⟨program, text, slot, first, parsed, found, firstFails, le, there⟩

/-- A jump over a shift by too much to a jump by an odd offset: the run fails at the one, the check
    at the other. -/
theorem check_foresees_run_skipped :
    let source := "jal x0, on\nslli x1, x1, 32\non: jal x0, -7"
    let session := Session.new { memorySize := 16, maxSteps := 5, historyDepth := 2 }
    let odd : DecodeError := ⟨3, .misalignedOffset .jal (-7)⟩
    (session.run source).1 = .error (.machine (.decode odd)) ∧
      ∃ program text slot first, Program.parse source = .ok program ∧
        ((Command.check "a.s").perform (m := Id) (fun _ => .ok source) false {}).run =
          .ok (text, some (.decode "a.s" first)) ∧
        program.FirstFailsAt slot first ∧ slot ≤ 2 ∧ program.FailsAt 2 odd := by
  intro source session odd
  let jump : Record :=
    { opcode := .jal, format := .uj, index := 0, line := 1, source := "jal x0, on", rd := some 0,
      imm := some 8, label := some "on" }
  let shift : Record :=
    { opcode := .slli, format := .i, index := 1, line := 2, source := "slli x1, x1, 32",
      rd := some 1, rs1 := some 1, imm := some 32 }
  let back : Record :=
    { opcode := .jal, format := .uj, index := 2, line := 3, source := "jal x0, -7", rd := some 0,
      imm := some (-7) }
  have parsed : Program.parse source = .ok ⟨#[jump, shift, back], ⟨[⟨"on", 2, 3, 0⟩]⟩⟩ :=
    eq_ok_of_toOption (by decide +kernel)
  have ran := session.run_of_parsed parsed
  have failed : (session.run source).1 = .error (.machine (.decode odd)) := by
    rw [ran]
    rfl
  have stopped : (session.run source).2.machine.hart.pc.toNat = 2 := by
    rw [ran]
    rfl
  obtain ⟨-, -, -, foresees⟩ :=
    @check_foresees_run (fun _ => .ok source) "a.s" source rfl false {} session
  obtain ⟨program, text, slot, first, same, found, fails, le, there⟩ := foresees odd failed
  rw [stopped] at le there
  exact ⟨failed, program, text, slot, first, same, found, fails, le, there⟩

end Rv32i
