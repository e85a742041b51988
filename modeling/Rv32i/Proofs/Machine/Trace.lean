import Rv32i.Proofs.Machine.BoundedRun
import Rv32i.Proofs.Machine.InPlace

/-!
# The trace of a machine

A history keeps the last attempts and drops the older ones. Here the attempts are written down in
full, by looking at the machine before each step and not at its history: `Machine.attempt?` is the
attempt of one step, `Machine.attempts` those of a run, and `Machine.traceAll` those of calls in any
order, from the last reset on.

* `history_step`: a step adds its attempt to the history, and nothing if it makes none;
* `isSome_attempt?_iff`: it makes one exactly if it executes an instruction or faults;
* `History.Shows` is the invariant, a suffix of the trace as long as the depth allows;
  `Shows.push` preserves it, and `Shows.step`, `Shows.run` and `Shows.callAll` follow.

The main statement is `history_is_tail_of_trace`.
-/

namespace Rv32i

/-! ## 1. Attempts -/

namespace Machine

/-- The attempt that the next step makes, if it fetches a record and decodes it. -/
def attempt? (program : Program) (m : Machine) : Option HistoryEntry :=
  if m.hart.halted then none
  else match program.record? m.hart.pc.toNat with
    | none => none
    | some record =>
      match record.decode with
      | .error _ => none
      | .ok _ => some ⟨m.hart.pc, record.line, record.source⟩

/-- The attempts of steps in a row, oldest first: as long as each executes an instruction, and no
    more than a budget. -/
def attempts (program : Program) : Nat → Machine → List HistoryEntry
  | 0, _ => []
  | budget + 1, m =>
    (m.attempt? program).toList ++
      match m.step program with
      | (.ok .executed, after) => after.attempts program budget
      | _ => []

section

variable {program : Program} {m : Machine}

/-- **A step adds its attempt to the history**, and nothing if it makes none. -/
theorem history_step (program : Program) (m : Machine) :
    (m.step program).2.history = ((m.attempt? program).map m.history.push).getD m.history := by
  rcases stepped : m.step program with ⟨result, after⟩
  unfold attempt?
  cases Attempt.of_step stepped with
  | halted stays => rw [if_pos stays]; rfl
  | outside running fetch => simp only [running, fetch]; rfl
  | undecodable running fetch decode => simp only [running, fetch, decode]; rfl
  | faulting running fetch decode => simp only [running, fetch, decode]; rfl
  | executed running fetch decode => simp only [running, fetch, decode]; rfl

/-- **A step makes an attempt exactly if it executes an instruction or faults.** -/
theorem isSome_attempt?_iff :
    (m.attempt? program).isSome ↔ (m.step program).1 = .ok .executed ∨
      ∃ line fault, (m.step program).1 = .error (.fault line fault) := by
  rcases stepped : m.step program with ⟨result, after⟩
  unfold attempt?
  cases Attempt.of_step stepped with
  | halted stays => simp [stays]
  | outside running fetch => simp [running, fetch]
  | undecodable running fetch decode => simp [running, fetch, decode]
  | faulting running fetch decode => simp [running, fetch, decode]
  | executed running fetch decode => simp [running, fetch, decode]

/-- A halted machine makes none. -/
theorem attempts_of_halted (halted : m.hart.halted = true) (budget : Nat) :
    m.attempts program budget = [] := by
  cases budget with
  | zero => rfl
  | succ budget =>
    have none : m.attempt? program = none := if_pos halted
    rw [attempts, none, step_of_halted halted]
    rfl

/-- **A run that succeeds has made as many attempts as it has executed instructions.** -/
theorem length_attempts_of_runWithin {executed budget steps : Nat} {after : Machine}
    (ran : m.runWithin program executed budget = (.ok steps, after)) :
    executed + (m.attempts program budget).length = steps := by
  induction budget generalizing m executed with
  | zero =>
    rw [runWithin] at ran
    split at ran
    · cases ran
      rfl
    · cases ran
  | succ budget ih =>
    cases halted : m.hart.halted with
    | true =>
      rw [runWithin_of_halted halted] at ran
      rw [attempts_of_halted halted]
      cases ran
      rfl
    | false =>
      have attempted : (m.attempt? program).isSome ↔ _ := isSome_attempt?_iff
      rw [runWithin, halted] at ran
      rw [attempts]
      rcases stepped : m.step program with ⟨error | ⟨_ | _⟩, next⟩
      · rw [stepped] at ran
        cases ran
      · rw [stepped] at ran attempted
        obtain ⟨entry, made⟩ := Option.isSome_iff_exists.mp (attempted.mpr (.inl rfl))
        have later := ih ran
        rw [made]
        show executed + ([entry] ++ next.attempts program budget).length = steps
        rw [List.length_append, List.length_singleton, ← Nat.add_assoc, later]
      · rw [stepped] at ran attempted
        have none : m.attempt? program = none := by
          simpa using attempted
        rw [none]
        cases ran
        rfl

end

/-! ## 2. Calls -/

/-- What can be asked of a machine. Each call may bring its own program. -/
inductive Call
  | step (program : Program)
  | run (program : Program)
  | reset

/-- The machine after a call. -/
def call (m : Machine) : Call → Machine
  | .step program => (m.step program).2
  | .run program => (m.run program).2
  | .reset => m.reset

/-- The machine after calls, one after the other. -/
def callAll (m : Machine) (calls : List Call) : Machine :=
  calls.foldl call m

/-- The attempts after a call, given those before it. A reset forgets them. -/
def trace (m : Machine) (before : List HistoryEntry) : Call → List HistoryEntry
  | .step program => before ++ (m.attempt? program).toList
  | .run program => before ++ m.attempts program m.maxSteps
  | .reset => []

/-- The attempts after calls, one after the other, given those before them. -/
def traceAll (m : Machine) (before : List HistoryEntry) : List Call → List HistoryEntry
  | [] => before
  | call :: calls => (m.call call).traceAll (m.trace before call) calls

end Machine

/-! ## 3. What a history shows -/

namespace History

/-- **The history shows the tail of a trace**: its entries end the trace, and there are as many as
    the depth and the trace allow. -/
structure Shows (history : History) (trace : List HistoryEntry) : Prop where
  suffix : history.entries <:+ trace
  length : history.entries.length = min history.depth trace.length

variable {history : History} {trace : List HistoryEntry}

theorem shows_empty (depth : Nat) : (empty depth).Shows [] where
  suffix := (entries_empty depth).symm ▸ List.nil_suffix
  length := by rw [entries_empty, List.length_nil, Nat.min_zero]

/-- A push adds to both. -/
theorem Shows.push (shows : history.Shows trace) (entry : HistoryEntry) :
    (history.push entry).Shows (trace ++ [entry]) where
  suffix := by
    rw [entries_push]
    obtain ⟨dropped, rfl⟩ := shows.suffix
    rw [List.append_assoc]
    exact (List.drop_suffix ..).trans (List.suffix_append dropped _)
  length := by
    have before := shows.length
    rw [entries_push, depth_push, List.length_drop, List.length_append, List.length_append,
      List.length_singleton, History.length]
    omega

section

variable {m : Machine} {before : List HistoryEntry}

theorem Shows.step (shows : m.history.Shows before) (program : Program) :
    (m.step program).2.history.Shows (before ++ (m.attempt? program).toList) := by
  rw [Machine.history_step]
  cases m.attempt? program with
  | none => exact (List.append_nil before).symm ▸ shows
  | some entry => exact shows.push entry

/-- **A run shows the attempts of its steps**, however it ends. -/
theorem Shows.runWithin (shows : m.history.Shows before) (program : Program)
    (executed budget : Nat) :
    (m.runWithin program executed budget).2.history.Shows
      (before ++ m.attempts program budget) := by
  induction budget generalizing m before executed with
  | zero =>
    rw [Machine.runWithin, Machine.attempts, List.append_nil]
    split
    · exact shows
    · exact shows
  | succ budget ih =>
    have first := shows.step program
    rw [Machine.runWithin, Machine.attempts, ← List.append_assoc]
    split
    · rename_i halted
      rw [Machine.step_of_halted halted] at first ⊢
      rw [List.append_nil]
      exact first
    · rcases stepped : m.step program with ⟨error | ⟨_ | _⟩, after⟩
      · rw [stepped] at first
        rw [List.append_nil]
        exact first
      · rw [stepped] at first
        exact ih first (executed + 1)
      · rw [stepped] at first
        rw [List.append_nil]
        exact first

/-- **A call keeps the invariant**, and a reset starts it anew. -/
theorem Shows.call (shows : m.history.Shows before) (call : Machine.Call) :
    (m.call call).history.Shows (m.trace before call) := by
  cases call with
  | step program => exact shows.step program
  | run program => exact shows.runWithin program 0 m.maxSteps
  | reset => exact shows_empty m.history.depth

/-- **Calls in any order keep the invariant.** -/
theorem Shows.callAll (shows : m.history.Shows before) (calls : List Machine.Call) :
    (m.callAll calls).history.Shows (m.traceAll before calls) := by
  induction calls generalizing m before with
  | nil => exact shows
  | cons call calls ih => exact ih (shows.call call)

end

end History

namespace Machine

/-- No call changes the depth of the history. -/
theorem depth_callAll (m : Machine) (calls : List Call) :
    (m.callAll calls).history.depth = m.history.depth := by
  induction calls generalizing m with
  | nil => rfl
  | cons call calls ih =>
    refine (ih (m.call call)).trans ?_
    cases call with
    | step program => exact (attempt_step program m).depth
    | run program =>
      have each {k l : Machine} {result : Except MachineError StepOutcome}
          (kept : k.history.depth = m.history.depth) (attempt : Attempt program k result l) :
          l.history.depth = m.history.depth := attempt.depth.trans kept
      exact runWithin_preserves each rfl 0 m.maxSteps
    | reset => rfl

/-- **The history is the tail of the trace.** Whatever calls a machine has had since it was built,
    with whatever programs, its history shows the last attempts since then or since the last reset,
    oldest first, each with the slot it was fetched from and the line and source of its record: as
    many as the depth allows, or all of them if they are fewer. Attempts are exactly the steps that
    execute an instruction or fault, so steps that are idle or do not decode add nothing, and a run
    that succeeds has made one for each instruction it counts. -/
theorem history_is_tail_of_trace (config : MachineConfig) (hart : Hart) (calls : List Call) :
    let trace := (withHart config hart).traceAll [] calls
    let history := ((withHart config hart).callAll calls).history
    history.entries <:+ trace ∧
      history.entries.length = min config.historyDepth trace.length ∧
      ∀ program m,
        ((attempt? program m).isSome ↔ (m.step program).1 = .ok .executed ∨
          ∃ line fault, (m.step program).1 = .error (.fault line fault)) ∧
        ∀ steps, (m.run program).1 = .ok steps →
          (m.attempts program m.maxSteps).length = steps := by
  intro trace history
  have shows : history.Shows trace := (History.shows_empty config.historyDepth).callAll calls
  have depth : history.depth = config.historyDepth := depth_callAll (withHart config hart) calls
  refine ⟨shows.suffix, depth ▸ shows.length, fun program m => ⟨isSome_attempt?_iff, ?_⟩⟩
  intro steps ran
  have counted := length_attempts_of_runWithin (Prod.ext ran rfl)
  rwa [Nat.zero_add] at counted

/-- A run that faults at its third instruction, the same fault again in a step, and a step of a
    program without that slot: four attempts, of which a history of depth two shows the faults. -/
theorem history_is_tail_of_trace_faults :
    let set : Record :=
      { opcode := .addi, format := .i, index := 0, line := 1, source := "addi x1, x0, 2",
        rd := some 1, rs1 := some 0, imm := some 2 }
    let load : Record :=
      { opcode := .lw, format := .il, index := 2, line := 4, source := "lw x2, 0(x1)", rd := some 2,
        rs1 := some 1, imm := some 0 }
    let program := Program.ofRecords #[set, set, load]
    let config : MachineConfig := ⟨16, 9, 2⟩
    let calls : List Call :=
      [.run program, .reset, .run program, .step program, .step (.ofRecords #[])]
    let history := ((withHart config (.zero 16)).callAll calls).history
    history.entries <:+ [⟨0, 1, set.source⟩, ⟨1, 1, set.source⟩, ⟨2, 4, load.source⟩,
      ⟨2, 4, load.source⟩] ∧ history.entries.length = 2 := by
  intro set load program config calls history
  obtain ⟨suffix, length, -⟩ := history_is_tail_of_trace config (.zero 16) calls
  have traced : (withHart config (.zero 16)).traceAll [] calls =
      [⟨0, 1, set.source⟩, ⟨1, 1, set.source⟩, ⟨2, 4, load.source⟩, ⟨2, 4, load.source⟩] := by
    decide +kernel
  rw [traced] at suffix length
  exact ⟨suffix, length⟩

end Machine

end Rv32i
