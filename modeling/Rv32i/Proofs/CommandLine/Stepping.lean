import Rv32i.Files.FileTree
import Rv32i.Proofs.CommandLine.Printed
import Rv32i.Proofs.Machine.BoundedRun
import Rv32i.Proofs.Session.Forgetting

/-!
# Stepping in two parts

The step command executes some instructions and prints the last snapshot with their number. What it
prints may be given to it again, to go on from there.

* `Session.Taken` says what the snapshot of a step is: that of a sound hart, with the program;
* `stepRepeatedly_add` splits the loop, `stepMany_add` the command. A part that starts from a halted
  snapshot makes one step more than the whole would, which finds nothing to execute;
* `perform_step` is the command on files, what it reads apart from how many steps it makes, and
  `stepInputs_saving` what the second part reads;
* `stepping_cases`: the whole goes as the first part, as the second, or as both together.

The main statement, `step_in_two_parts`, compares one invocation with two.
-/

namespace Rv32i

open Text

/-! ## 1. Snapshots of steps -/

namespace Session

/-- **The snapshot is of a sound hart** of the configuration and carries the records. -/
def Taken (config : MachineConfig) (records : Array Record) (s : Snapshot) : Prop :=
  ∃ h : Hart, h.Sound ∧ h.memory.size = config.memorySize ∧
    s = (Snapshot.ofHart h).withInstructions records

section

variable {config : MachineConfig} {session after : Session} {source : String}
  {snapshot : Option Snapshot} {records : Array Record} {s : Snapshot} {out : RunOutput}

/-- A step keeps the session sound. -/
theorem Sound.after_step (sound : session.Sound config)
    (h : session.step source snapshot = (.ok out, after)) : after.Sound config := by
  have served : (session.step source snapshot).2.Sound config :=
    sound.serve (.step source snapshot)
  rwa [h] at served

/-- **What a step comes back with is taken** of the hart it leads to. -/
theorem Sound.taken_of_step (sound : session.Sound config)
    (h : session.step source snapshot = (.ok out, after)) :
    ∃ program, programOf source snapshot = .ok program ∧
      Taken config program.records out.snapshot := by
  cases parsed : programOf source snapshot with
  | error error => simp [step, parsed] at h
  | ok program =>
    cases start : session.startOf snapshot with
    | error error => simp [step, parsed, start] at h
    | ok machine =>
      have conforms := sound.startOf start
      obtain ⟨outcome, m, stepped, eq⟩ | ⟨error, m, -, eq⟩ := step_of_start source parsed start
      · rw [eq] at h
        cases h
        have attempt := Machine.Attempt.of_step stepped
        exact ⟨program, rfl, m.hart, attempt.sound conforms.hart,
          attempt.size.trans conforms.size, rfl⟩
      · rw [eq] at h
        cases h

theorem Taken.programOf_eq (taken : Taken config records s) (source : String) :
    programOf source (some s) = .ok (.ofRecords records) := by
  obtain ⟨h, -, -, rfl⟩ := taken
  rfl

theorem Taken.sendable (taken : Taken config records s) (each : ∀ r ∈ records, r.Sendable) :
    s.Sendable := by
  obtain ⟨h, -, -, rfl⟩ := taken
  intro carried eq
  cases eq
  exact each

/-- **A step from a snapshot that has halted** executes nothing and comes back with the snapshot. -/
theorem Taken.step_of_halted (taken : Taken config records s) (same : session.config = config)
    (halted : s.halted = true) (source : String) :
    ∃ after, session.step source (some s) = (.ok ⟨s, 0⟩, after) := by
  obtain ⟨h, sound, size, rfl⟩ := taken
  have start := startOf_snapshot sound (size.trans (congrArg _ same.symm)) records
  have idle : (Machine.withHart session.config h).step (.ofRecords records) = (.ok .idle, _) :=
    Machine.step_of_halted halted
  obtain ⟨outcome, m, stepped, eq⟩ | ⟨error, m, stepped, -⟩ := step_of_start source rfl start
  · cases idle.symm.trans stepped
    exact ⟨_, eq⟩
  · cases idle.symm.trans stepped

end

end Session

/-! ## 2. Stepping on a session -/

section

variable {config : MachineConfig} {session : Session} {source : String} {output : RunOutput}

/-- Steps in a row take nothing from the session but its configuration. -/
theorem stepRepeatedly_eq (sound : session.Sound config) (count : Nat) :
    stepRepeatedly source session output count =
      stepRepeatedly source (.new config) output count := by
  induction count generalizing session output with
  | zero => rfl
  | succ count ih =>
    have fresh := Session.sound_new config
    have same := (sound.step_eq source output.snapshot).1
    rw [stepRepeatedly, stepRepeatedly]
    split
    · rfl
    · rcases stepped : session.step source (some output.snapshot) with ⟨result, after⟩
      rcases again : (Session.new config).step source (some output.snapshot) with ⟨other, left⟩
      rw [stepped, again] at same
      cases same
      cases result with
      | error error => rfl
      | ok next => exact (ih (sound.after_step stepped)).trans (ih (fresh.after_step again)).symm

theorem stepRepeatedly_of_halted (halted : output.snapshot.halted = true) (count : Nat) :
    stepRepeatedly source session output count = .ok output := by
  cases count with
  | zero => rfl
  | succ count => rw [stepRepeatedly, if_pos halted]

/-- **The loop splits** anywhere. -/
theorem stepRepeatedly_add (sound : session.Sound config) (m n : Nat) :
    stepRepeatedly source session output (m + n) =
      stepRepeatedly source session output m >>= fun between =>
        stepRepeatedly source (.new config) between n := by
  induction m generalizing session output with
  | zero => rw [Nat.zero_add, stepRepeatedly_eq sound]; rfl
  | succ m ih =>
    rw [Nat.succ_add, stepRepeatedly, stepRepeatedly]
    split
    · -- a halted output ends the whole loop and both of its parts
      rename_i halted
      exact (stepRepeatedly_of_halted halted n).symm
    · rcases stepped : session.step source (some output.snapshot) with ⟨error | next, after⟩
      · rfl
      · exact ih (sound.after_step stepped)

/-- Steps of before are counted on. -/
theorem stepRepeatedly_counted (before : Nat) (count : Nat) :
    stepRepeatedly source session ⟨output.snapshot, before + output.steps⟩ count =
      (stepRepeatedly source session output count).map
        fun last => ⟨last.snapshot, before + last.steps⟩ := by
  induction count generalizing session output with
  | zero => rfl
  | succ count ih =>
    rw [stepRepeatedly, stepRepeatedly]
    split
    · rfl
    · rcases stepped : session.step source (some output.snapshot) with ⟨error | next, after⟩
      · rfl
      · have counted := @ih after ⟨next.snapshot, output.steps + next.steps⟩
        rw [← Nat.add_assoc] at counted
        exact counted

/-- **What the loop comes to is taken** of a hart if what it starts from is, and it counts no more
    steps than it may make. -/
theorem taken_of_stepRepeatedly (sound : session.Sound config) {records : Array Record}
    (taken : Session.Taken config records output.snapshot) {count : Nat} {last : RunOutput}
    (h : stepRepeatedly source session output count = .ok last) :
    Session.Taken config records last.snapshot ∧ last.steps ≤ output.steps + count := by
  induction count generalizing session output with
  | zero =>
    cases h
    exact ⟨taken, Nat.le_refl _⟩
  | succ count ih =>
    rw [stepRepeatedly] at h
    split at h
    · cases h
      exact ⟨taken, Nat.le_add_right _ _⟩
    · rcases stepped : session.step source (some output.snapshot) with ⟨error | next, after⟩
      · rw [stepped] at h
        cases h
      · rw [stepped] at h
        obtain ⟨program, parsed, here⟩ := sound.taken_of_step stepped
        cases (taken.programOf_eq source).symm.trans parsed
        obtain ⟨there, le⟩ :=
          @ih after ⟨next.snapshot, output.steps + next.steps⟩ (sound.after_step stepped) here h
        have step := Session.steps_of_step stepped
        simp only at le
        exact ⟨there, by omega⟩

/-- **A part that starts from a snapshot of a step** is the loop. Where the snapshot has halted the
    part makes a step and the loop does not, but the step comes back with the snapshot. -/
theorem stepMany_taken {records : Array Record} {s : Snapshot}
    (taken : Session.Taken config records s) {n : Nat} (positive : 1 ≤ n) :
    stepMany (.new config) source (some s) n = stepRepeatedly source (.new config) ⟨s, 0⟩ n := by
  obtain ⟨k, rfl⟩ := Nat.exists_eq_add_of_le' positive
  rw [stepMany, stepRepeatedly]
  cases halted : s.halted with
  | true =>
    have fresh : (Session.new config).config = config := rfl
    obtain ⟨after, idle⟩ := taken.step_of_halted fresh halted source
    rw [idle]
    exact stepRepeatedly_of_halted halted _
  | false =>
    rcases (Session.new config).step source (some s) with ⟨error | next, after⟩
    · rfl
    · simp

/-- The first step of a part, and the others from there. -/
theorem stepMany_succ {snapshot : Option Snapshot} {out : RunOutput} {after : Session}
    (stepped : session.step source snapshot = (.ok out, after)) (k : Nat) :
    stepMany session source snapshot (k + 1) = stepRepeatedly source after out k := by
  rw [stepMany, stepped, Nat.add_sub_cancel]

theorem stepMany_of_error {snapshot : Option Snapshot} {error : SessionError} {after : Session}
    (stepped : session.step source snapshot = (.error error, after)) (k : Nat) :
    stepMany session source snapshot k = .error error := by
  rw [stepMany, stepped]

/-- **A part that succeeds** comes to a snapshot of its program, in no more steps than it may
    make. -/
theorem taken_of_stepMany {snapshot : Option Snapshot} {n : Nat} (positive : 1 ≤ n)
    (h : stepMany (.new config) source snapshot n = .ok output) :
    ∃ program, Session.programOf source snapshot = .ok program ∧
      Session.Taken config program.records output.snapshot ∧ output.steps ≤ n := by
  obtain ⟨k, rfl⟩ := Nat.exists_eq_add_of_le' positive
  have fresh := Session.sound_new config
  rcases stepped : (Session.new config).step source snapshot with ⟨error | out, after⟩
  · rw [stepMany_of_error stepped] at h
    cases h
  · rw [stepMany_succ stepped] at h
    obtain ⟨program, parsed, here⟩ := fresh.taken_of_step stepped
    obtain ⟨taken, le⟩ := taken_of_stepRepeatedly (fresh.after_step stepped) here h
    have step := Session.steps_of_step stepped
    exact ⟨program, parsed, taken, by omega⟩

/-- **Steps in two parts**: the second goes on from the snapshot of the first, and the steps are
    those of both. -/
theorem stepMany_add (snapshot : Option Snapshot) {m n : Nat} (hm : 1 ≤ m) (hn : 1 ≤ n) :
    stepMany (.new config) source snapshot (m + n) = do
      let first ← stepMany (.new config) source snapshot m
      let second ← stepMany (.new config) source (some first.snapshot) n
      return ⟨second.snapshot, first.steps + second.steps⟩ := by
  obtain ⟨k, rfl⟩ := Nat.exists_eq_add_of_le' hm
  have fresh := Session.sound_new config
  rcases stepped : (Session.new config).step source snapshot with ⟨error | out, after⟩
  · rw [stepMany_of_error stepped, stepMany_of_error stepped]
    rfl
  · rw [Nat.add_right_comm, stepMany_succ stepped, stepRepeatedly_add (fresh.after_step stepped),
      ← stepMany_succ stepped]
    cases first : stepMany (.new config) source snapshot (k + 1) with
    | error error => rfl
    | ok between =>
      obtain ⟨program, -, taken, -⟩ := taken_of_stepMany hm first
      have counted : stepRepeatedly source (.new config) between n = _ :=
        @stepRepeatedly_counted (.new config) source ⟨between.snapshot, 0⟩ between.steps n
      simp only [ok_bind, stepMany_taken taken hn, counted]
      cases stepRepeatedly source (.new config) ⟨between.snapshot, 0⟩ n <;> rfl

end

/-! ## 3. Stepping on files -/

/-- An invocation of the step command. -/
def stepping (options : Options) (config : Option String) (file : String) (state : Option String)
    (count : Nat) : Invocation :=
  ⟨options, config, .step file state count⟩

section

variable (read : String → Id (Except ReadError String))

/-- The snapshot that a step command is given, if it is. -/
def readState : Option String → ExceptT CommandError Id (Option Snapshot)
  | some file => some <$> readSnapshot read file
  | none => pure none

/-- What a step command reads: the options, the source, and the snapshot if one is given. -/
def stepInputs (options : Options) (config : Option String) (file : String)
    (state : Option String) : ExceptT CommandError Id (Options × String × Option Snapshot) := do
  let options ← resolve read options config
  let source ← readSource read file
  let snapshot ← readState read state
  return (options, source, snapshot)

/-- What it leaves behind, given what it read. -/
def stepOutcome (styled : Bool) (file : String) (count : Nat) :
    Except CommandError (Options × String × Option Snapshot) → Outcome
  | .error error => .failure styled "" error
  | .ok (options, source, snapshot) =>
    match stepMany (.new options.machineConfig) source snapshot count with
    | .error error => .failure styled "" (.session file error)
    | .ok output => .success (printed output.toJson)

section

variable {styled : Bool} {file source : String} {count : Nat} {options : Options}
  {snapshot : Option Snapshot}

theorem stepOutcome_of_ok {output : RunOutput}
    (h : stepMany (.new options.machineConfig) source snapshot count = .ok output) :
    stepOutcome styled file count (.ok (options, source, snapshot)) =
      .success (printed output.toJson) := by
  rw [stepOutcome, h]

theorem stepOutcome_of_error {error : SessionError}
    (h : stepMany (.new options.machineConfig) source snapshot count = .error error) :
    stepOutcome styled file count (.ok (options, source, snapshot)) =
      .failure styled "" (.session file error) := by
  rw [stepOutcome, h]

end

/-- **The step command reads and then steps.** -/
theorem perform_step (styled : Bool) (options : Options) (config : Option String) (file : String)
    (state : Option String) (count : Nat) :
    (stepping options config file state count).perform read styled =
      stepOutcome styled file count (stepInputs read options config file state).run := by
  have apart : (do
      let options ← resolve read options config
      (Command.step file state count).perform read styled options) =
      stepInputs read options config file state >>= fun (options, source, snapshot) =>
        match stepMany (.new options.machineConfig) source snapshot count with
        | .error error => throw (.session file error)
        | .ok output => return (printed output.toJson, none) := by
    simp only [Command.perform, stepInputs, bind_assoc]
    cases state <;> rfl
  rw [stepping, Invocation.perform, apart]
  cases inputs : (stepInputs read options config file state).run with
  | error error =>
    have failed : stepInputs read options config file state = throw error := inputs
    rw [failed]
    rfl
  | ok found =>
    have readable : stepInputs read options config file state = pure found := inputs
    obtain ⟨options, source, snapshot⟩ := found
    rw [readable, pure_bind]
    dsimp only [stepOutcome]
    cases stepMany (.new options.machineConfig) source snapshot count <;> rfl

/-- Reading one thing after another succeeds if each does. -/
theorem run_bind_eq_ok {ε α β : Type} {x : ExceptT ε Id α} {f : α → ExceptT ε Id β} {b : β} :
    (x >>= f).run = .ok b ↔ ∃ a, x = pure a ∧ (f a).run = .ok b := by
  constructor
  · intro h
    cases found : x.run with
    | error e =>
      have failed : x = throw e := found
      rw [failed] at h
      cases h
    | ok a =>
      have readable : x = pure a := found
      rw [readable, pure_bind] at h
      exact ⟨a, readable, h⟩
  · rintro ⟨a, rfl, h⟩
    rwa [pure_bind]

variable {read} {options : Options} {config : Option String} {file source : String}
  {state : Option String} {snapshot : Option Snapshot} {resolved : Options}

theorem read_eq_of_readSource (h : readSource read file = pure source) :
    read file = .ok source := by
  rcases reads : read file with error | text
  · rw [readSource, reads] at h
    cases h
  · rw [readSource, reads] at h
    cases h
    rfl

theorem sendable_of_readSnapshot {s : Snapshot} (h : (readSnapshot read file).run = .ok s) :
    s.Sendable := by
  obtain ⟨text, -, h⟩ := run_bind_eq_ok.mp h
  split at h
  · rename_i given reads
    cases h
    obtain ⟨value, -, reads⟩ := Option.bind_eq_some_iff.mp reads
    exact Snapshot.sendable_of_ofJson? reads
  · cases h

/-- **What a step command has read**, if it could: the snapshot, if one is given, has numbers of
    64 bits. -/
theorem stepInputs_eq_ok
    (found : (stepInputs read options config file state).run = .ok (resolved, source, snapshot)) :
    resolve read options config = pure resolved ∧ readSource read file = pure source ∧
      ∀ s, snapshot = some s → s.Sendable := by
  obtain ⟨_, options, found⟩ := run_bind_eq_ok.mp found
  obtain ⟨_, source, found⟩ := run_bind_eq_ok.mp found
  obtain ⟨_, given, found⟩ := run_bind_eq_ok.mp found
  cases found
  refine ⟨options, source, ?_⟩
  rintro s rfl
  cases state with
  | none => cases given
  | some stateFile =>
    rw [readState, map_eq_pure_bind] at given
    obtain ⟨_, reads, same⟩ := run_bind_eq_ok.mp (congrArg ExceptT.run given)
    cases same
    exact sendable_of_readSnapshot (congrArg ExceptT.run reads)

/-- The files with a text in the place of one of them. -/
def saving (read : String → Id (Except ReadError String)) (name text : String) :
    String → Id (Except ReadError String) :=
  fun file => if file = name then pure (.ok text) else read file

theorem saving_of_ne {name text : String} (ne : file ≠ name) :
    saving read name text file = read file :=
  if_neg ne

/-- **The second part reads the same options and source**, and the snapshot that was saved. -/
theorem stepInputs_saving {saved text : String} {s : Snapshot} (notSource : file ≠ saved)
    (notConfig : config ≠ some saved)
    (found : (stepInputs read options config file state).run = .ok (resolved, source, snapshot))
    (back : (Json.read? text).bind Snapshot.ofJson? = some s) :
    (stepInputs (saving read saved text) options config file (some saved)).run =
      .ok (resolved, source, some s) := by
  obtain ⟨resolves, reads, -⟩ := stepInputs_eq_ok found
  have sameOptions : resolve (saving read saved text) options config = pure resolved := by
    rw [← resolves]
    cases config with
    | none => rfl
    | some c => rw [resolve, resolve, saving_of_ne fun e => notConfig (congrArg some e)]
  have sameSource : readSource (saving read saved text) file = pure source := by
    rw [← reads, readSource, readSource, saving_of_ne notSource]
  have written : readSource (saving read saved text) saved = pure text := by
    rw [readSource, saving, if_pos rfl]
    rfl
  have given : readSnapshot (saving read saved text) saved = pure s := by
    rw [readSnapshot, written, pure_bind, back]
  rw [stepInputs, sameOptions, pure_bind, sameSource, pure_bind, readState, given, map_pure,
    pure_bind]
  rfl

end

/-! ## 4. One invocation and two -/

section

variable {read : String → Id (Except ReadError String)} {options resolved : Options}
  {config : Option String} {file source : String} {state : Option String}
  {snapshot : Option Snapshot} {output : RunOutput}

/-- **What the first part prints is read back** by the second. -/
theorem read_printed_of_stepMany {m : Nat} (hm : 1 ≤ m) (few : m < 2 ^ 64)
    (short : ∀ source, read file = .ok source → (lines source.toList).length < 2 ^ 64)
    (found : (stepInputs read options config file state).run = .ok (resolved, source, snapshot))
    (h : stepMany (.new resolved.machineConfig) source snapshot m = .ok output) :
    (Json.read? (printed output.toJson)).bind Snapshot.ofJson? = some output.snapshot := by
  obtain ⟨-, reads, given⟩ := stepInputs_eq_ok found
  obtain ⟨program, parsed, taken, steps⟩ := taken_of_stepMany hm h
  have each : ∀ r ∈ program.records, r.Sendable := by
    unfold Session.programOf at parsed
    split at parsed
    · rename_i records carried
      cases parsed
      obtain ⟨s, is, instructions⟩ := Option.bind_eq_some_iff.mp carried
      exact given s is records instructions
    · exact Program.sendable_of_parse parsed (short source (read_eq_of_readSource reads))
  exact Snapshot.read_printed (taken.sendable each) (Nat.lt_of_le_of_lt steps few)

/-- **How two parts go, and the whole with them.** -/
theorem stepping_cases (styled : Bool) {saved : String} (notSource : file ≠ saved)
    (notConfig : config ≠ some saved)
    (short : ∀ source, read file = .ok source → (lines source.toList).length < 2 ^ 64) {m n : Nat}
    (hm : 1 ≤ m) (hn : 1 ≤ n) (total : m + n < 2 ^ 64) :
    let whole := ((stepping options config file state (m + n)).perform read styled).run
    let first := ((stepping options config file state m).perform read styled).run
    let second := ((stepping options config file (some saved) n).perform
      (saving read saved first.stdout) styled).run
    (first.code ≠ 0 ∧ whole = first) ∨ (first.code = 0 ∧ second.code ≠ 0 ∧ whole = second) ∨
    ∃ s₁ s k l, first = .success (printed (RunOutput.toJson ⟨s₁, k⟩)) ∧
      second = .success (printed (RunOutput.toJson ⟨s, l⟩)) ∧
      whole = .success (printed (RunOutput.toJson ⟨s, k + l⟩)) := by
  intro whole first second
  have wholeIs : whole = stepOutcome styled file (m + n)
    (stepInputs read options config file state).run := perform_step ..
  have firstIs : first = stepOutcome styled file m
    (stepInputs read options config file state).run := perform_step ..
  have secondIs : second = stepOutcome styled file n
    (stepInputs (saving read saved first.stdout) options config file (some saved)).run :=
      perform_step ..
  cases found : (stepInputs read options config file state).run with
  | error error =>
    rw [found] at wholeIs firstIs
    rw [wholeIs, firstIs]
    exact .inl ⟨Nat.one_ne_zero, rfl⟩
  | ok inputs =>
    obtain ⟨resolved, source, snapshot⟩ := inputs
    rw [found] at wholeIs firstIs
    have parts : stepMany (.new resolved.machineConfig) source snapshot (m + n) = _ :=
      stepMany_add snapshot hm hn
    cases ran : stepMany (.new resolved.machineConfig) source snapshot m with
    | error error =>
      rw [ran] at parts
      rw [stepOutcome_of_error ran] at firstIs
      rw [stepOutcome_of_error parts] at wholeIs
      rw [wholeIs, firstIs]
      exact .inl ⟨Nat.one_ne_zero, rfl⟩
    | ok before =>
      have back := read_printed_of_stepMany hm (by omega) short found ran
      rw [ran, ok_bind] at parts
      rw [stepOutcome_of_ok ran] at firstIs
      rw [firstIs, Outcome.success, stepInputs_saving notSource notConfig found back] at secondIs
      cases again : stepMany (.new resolved.machineConfig) source (some before.snapshot) n with
      | error error =>
        rw [again] at parts
        rw [stepOutcome_of_error again] at secondIs
        rw [stepOutcome_of_error parts] at wholeIs
        rw [wholeIs, firstIs, secondIs]
        exact .inr (.inl ⟨rfl, Nat.one_ne_zero, rfl⟩)
      | ok last =>
        rw [again] at parts
        rw [stepOutcome_of_ok again] at secondIs
        rw [stepOutcome_of_ok parts] at wholeIs
        exact .inr (.inr ⟨before.snapshot, last.snapshot, before.steps, last.steps, firstIs,
          secondIs, wholeIs⟩)

end

/-- **Stepping `m + n` instructions is stepping `m` and then `n`**, from the file in which the
    output of the first part is saved; that is neither the source nor the options file, and the
    source has lines that can be counted in 64 bits. If both parts succeed, the whole prints the
    snapshot of the second with the steps of both. And the whole fails, with a message and a code,
    exactly if one of the parts fails with them: the first, or the second after the first has
    succeeded. -/
theorem step_in_two_parts {read : String → Id (Except ReadError String)} (styled : Bool)
    (options : Options) (config : Option String) {file : String} (state : Option String)
    {saved : String} (notSource : file ≠ saved) (notConfig : config ≠ some saved)
    (short : ∀ source, read file = .ok source → (lines source.toList).length < 2 ^ 64) {m n : Nat}
    (hm : 1 ≤ m) (hn : 1 ≤ n) (total : m + n < 2 ^ 64) :
    let whole := ((stepping options config file state (m + n)).perform read styled).run
    let first := ((stepping options config file state m).perform read styled).run
    let second := ((stepping options config file (some saved) n).perform
      (saving read saved first.stdout) styled).run
    (first.code = 0 → second.code = 0 →
      ∃ between last k l, first = .success (printed (RunOutput.toJson ⟨between, k⟩)) ∧
        second = .success (printed (RunOutput.toJson ⟨last, l⟩)) ∧
        whole = .success (printed (RunOutput.toJson ⟨last, k + l⟩))) ∧
    ∀ failed : Outcome, failed.code ≠ 0 →
      (whole = failed ↔ first = failed ∨ first.code = 0 ∧ second = failed) := by
  intro whole first second
  rcases stepping_cases styled notSource notConfig short hm hn total with
    ⟨fails, same⟩ | ⟨succeeds, fails, same⟩ | ⟨between, last, k, l, hfirst, hsecond, hwhole⟩
  · refine ⟨fun succeeds => absurd succeeds fails, fun failed _ => ?_⟩
    have same : whole = first := same
    rw [same]
    exact ⟨.inl, fun part => part.elim id fun ⟨succeeds, _⟩ => absurd succeeds fails⟩
  · refine ⟨fun _ succeeds => absurd succeeds fails, fun failed bad => ?_⟩
    have same : whole = second := same
    have other : first ≠ failed := fun eq => bad (eq ▸ succeeds)
    rw [same]
    exact ⟨fun eq => .inr ⟨succeeds, eq⟩, fun part => (part.resolve_left other).2⟩
  · refine ⟨fun _ _ => ⟨between, last, k, l, hfirst, hsecond, hwhole⟩, fun failed bad => ?_⟩
    have ne {outcome : Outcome} {text : String} (succeeds : outcome = .success text) :
        outcome ≠ failed := fun eq => bad (eq ▸ succeeds ▸ rfl)
    exact iff_of_false (ne hwhole) fun part => part.elim (ne hfirst) fun ⟨_, eq⟩ => ne hsecond eq

/-- A program that faults at its second instruction, started from a snapshot in the form of an
    array: stepping twice at once fails as the second of two single steps does, which reads what the
    first has printed. -/
theorem step_in_two_parts_fault :
    let tree : FileTree :=
      { directories := [["w"]]
        files := [(["w", "p.s"], "addi x1, x0, 1\njal x0, -8"), (["w", "zero.json"],
          "[[0,0,0,0,0,0,0,0,0,0,0,0,0,0,0,0,0,0,0,0,0,0,0,0,0,0,0,0,0,0,0,0],[],0,false]")] }
    let read : String → Id (Except ReadError String) := tree.read ["w"]
    let whole := ((stepping {} none "p.s" (some "./zero.json") 2).perform read false).run
    let first := ((stepping {} none "p.s" (some "./zero.json") 1).perform read false).run
    let second := ((stepping {} none "p.s" (some "s.json") 1).perform
      (saving read "s.json" first.stdout) false).run
    let failed : Outcome :=
      ⟨1, "", "error: p.s: line 2: jump target slot -1 is before the start of the program\n"⟩
    whole = failed ∧ first.code = 0 ∧ second = failed := by
  intro tree read whole first second failed
  have found : Except.toOption (read "p.s") = some "addi x1, x0, 1\njal x0, -8" := by
    decide +kernel
  have short : ∀ source, read "p.s" = .ok source → (lines source.toList).length < 2 ^ 64 := by
    intro source readable
    rw [readable] at found
    cases found
    decide +kernel
  obtain ⟨-, fails⟩ := @step_in_two_parts read false {} none "p.s" (some "./zero.json") "s.json"
    (by decide) (by decide) short 1 1 (by decide) (by decide) (by decide)
  have wholeFails : whole = failed := by decide +kernel
  have succeeds : first.code = 0 := by decide +kernel
  have other : first ≠ failed := fun eq => absurd (eq ▸ succeeds) (by decide)
  exact ⟨wholeFails, succeeds, (((fails failed (by decide)).mp wholeFails).resolve_left other).2⟩

end Rv32i
