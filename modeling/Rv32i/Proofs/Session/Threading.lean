import Rv32i.Proofs.Assembly.Decoded
import Rv32i.Proofs.Machine.BoundedRun
import Rv32i.Proofs.Session.Exchange
import Rv32i.Session.Requests

/-!
# Threaded steps and a whole run

A caller may run a source in one request, or step through it: the first step parses, and each
further one takes the snapshot that came back before, on whatever session and with whatever text.
The main statement, `run_of_threaded_steps`, says that both come to the same.

* `Chain` is a chain of steps that succeed, `ChainFails` one whose last step fails;
* `Chain.reached` is the simulation: what a chain hands on is the snapshot of a machine that
  executed as many instructions in a row, without a snapshot in between.
-/

namespace Rv32i

namespace Session

/-! ## 1. Chains -/

/-- **A chain of steps**, with the instructions executed in all and the last snapshot. The first
    step is on a fresh session; the others may be on any sessions of the configuration. -/
inductive Chain (config : MachineConfig) (source : String) : Nat → Snapshot → Prop
  | first {out : RunOutput} {after : Session}
      (step : (new config).step source none = (.ok out, after)) :
      Chain config source out.steps out.snapshot
  | next {n : Nat} {snapshot : Snapshot} {session after : Session} {text : String}
      {out : RunOutput} (before : Chain config source n snapshot)
      (running : snapshot.halted = false) (same : session.config = config)
      (step : session.step text (some snapshot) = (.ok out, after)) :
      Chain config source (n + out.steps) out.snapshot

/-- **A chain whose last step fails**, with the instructions executed before, the error and the
    session in which the step failed. -/
inductive ChainFails (config : MachineConfig) (source : String) :
    Nat → SessionError → Session → Prop
  | first {error : SessionError} {after : Session}
      (step : (new config).step source none = (.error error, after)) :
      ChainFails config source 0 error after
  | next {n : Nat} {snapshot : Snapshot} {session after : Session} {text : String}
      {error : SessionError} (before : Chain config source n snapshot)
      (running : snapshot.halted = false) (same : session.config = config)
      (step : session.step text (some snapshot) = (.error error, after)) :
      ChainFails config source n error after

/-! ## 2. One step of a session -/

/-- The instructions that a step without an error executed. -/
def stepCount : StepOutcome → Nat
  | .executed => 1
  | .idle => 0

/-- A step with its program and its machine at hand. -/
theorem step_of_start {session : Session} (source : String) {snapshot : Option Snapshot}
    {program : Program} {machine : Machine} (hp : programOf source snapshot = .ok program)
    (hm : session.startOf snapshot = .ok machine) :
    (∃ outcome machine', machine.step program = (.ok outcome, machine') ∧
      session.step source snapshot =
        (.ok ⟨(Snapshot.ofHart machine'.hart).withInstructions program.records, stepCount outcome⟩,
          { session with machine := machine' })) ∨
    (∃ error machine', machine.step program = (.error error, machine') ∧
      session.step source snapshot =
        (.error (.machine error), { session with machine := machine' })) := by
  rcases hs : machine.step program with ⟨error | outcome, machine'⟩
  · refine .inr ⟨error, machine', rfl, ?_⟩
    simp only [step, hp, hm, hs]
  · refine .inl ⟨outcome, machine', rfl, ?_⟩
    simp only [step, hp, hm, hs]
    cases outcome <;> rfl

/-- The first step of a session parses the source and steps its own machine. -/
theorem first_step (session : Session) {source : String} {program : Program}
    (hp : Program.parse source = .ok program) :
    (∃ outcome machine, session.machine.step program = (.ok outcome, machine) ∧
      session.step source none =
        (.ok ⟨(Snapshot.ofHart machine.hart).withInstructions program.records, stepCount outcome⟩,
          { session with machine })) ∨
    (∃ error machine, session.machine.step program = (.error error, machine) ∧
      session.step source none = (.error (.machine error), { session with machine })) :=
  step_of_start source hp rfl

theorem step_of_parse_error (session : Session) {source : String} {error : ParseError}
    (h : Program.parse source = .error error) :
    session.step source none = (.error (.parse error), session) := by
  have hp : programOf source none = .error error := h
  simp only [step, hp]

theorem run_of_ok (session : Session) {source : String} {program : Program} {steps : Nat}
    {machine : Machine} (hp : Program.parse source = .ok program)
    (hr : session.machine.reset.run program = (.ok steps, machine)) :
    session.run source = (.ok ⟨.ofHart machine.hart, steps⟩, { session with machine }) := by
  simp only [run, hp, hr]

theorem run_of_error (session : Session) {source : String} {program : Program}
    {error : MachineError} {machine : Machine} (hp : Program.parse source = .ok program)
    (hr : session.machine.reset.run program = (.error error, machine)) :
    session.run source = (.error (.machine error), { session with machine }) := by
  simp only [run, hp, hr]

theorem run_of_parse_error (session : Session) {source : String} {error : ParseError}
    (h : Program.parse source = .error error) :
    session.run source = (.error (.parse error), session) := by
  simp only [run, h]

/-- A source that parses fails no run with an error of parsing. -/
theorem run_ne_parse_error (session : Session) {source : String} {program : Program}
    (hp : Program.parse source = .ok program) (error : ParseError) :
    (session.run source).1 ≠ .error (.parse error) := by
  rcases hr : session.machine.reset.run program with ⟨e | steps, machine⟩
  · rw [run_of_error session hp hr]
    exact nofun
  · rw [run_of_ok session hp hr]
    exact nofun

/-- A source that parses fails no first step with an error of parsing. -/
theorem step_ne_parse_error (session : Session) {source : String} {program : Program}
    (hp : Program.parse source = .ok program) (error : ParseError) :
    (session.step source none).1 ≠ .error (.parse error) := by
  obtain ⟨outcome, machine, -, eq⟩ | ⟨e, machine, -, eq⟩ :=
    first_step session hp
  · rw [eq]
    exact nofun
  · rw [eq]
    exact nofun

/-- A snapshot taken by a step starts the next one where it left off. -/
theorem startOf_snapshot {session : Session} {hart : Hart} (sound : hart.Sound)
    (size : hart.memory.size = session.config.memorySize) (records : Array Record) :
    session.startOf (some ((Snapshot.ofHart hart).withInstructions records)) =
      .ok (.withHart session.config hart) := by
  unfold startOf
  simp only [Snapshot.restore_withInstructions, ← size, Snapshot.restore_ofHart sound, Except.map]

/-- **A step from a snapshot goes where the machine goes** that the snapshot was taken of: the
    records it carries stand in for the source, and its hart for the machine. -/
theorem next_step {session : Session} (program : Program) {k : Machine} (sound : k.hart.Sound)
    (size : k.hart.memory.size = session.config.memorySize) (text : String) :
    (∃ outcome k' after, k.step program = (.ok outcome, k') ∧
      session.step text (some ((Snapshot.ofHart k.hart).withInstructions program.records)) =
        (.ok ⟨(Snapshot.ofHart k'.hart).withInstructions program.records, stepCount outcome⟩,
          after)) ∨
    (∃ error k' after, k.step program = (.error error, k') ∧
      session.step text (some ((Snapshot.ofHart k.hart).withInstructions program.records)) =
        (.error (.machine error), after) ∧ after.machine.hart = k'.hart) := by
  have records : (Program.ofRecords program.records).records = program.records := rfl
  have hart : (Machine.withHart session.config k.hart).hart = k.hart := rfl
  obtain ⟨result, same⟩ := Machine.step_congr records hart
  have start := startOf_snapshot sound size program.records
  rcases hk : k.step program with ⟨outcome, k'⟩
  rw [hk] at result same
  obtain ⟨o, m, hs, eq⟩ | ⟨e, m, hs, eq⟩ := step_of_start text rfl start
  · rw [hs] at result same
    cases result
    refine .inl ⟨o, k', { session with machine := m }, rfl, ?_⟩
    rw [eq, ← same]
    rfl
  · rw [hs] at result same
    cases result
    exact .inr ⟨e, k', _, rfl, eq, same⟩

/-! ## 3. The simulation -/

/-- What a chain has come to: some instructions in a row, or a first step that found nothing to
    execute. -/
inductive Reached (program : Program) (start : Machine) : Nat → Machine → Prop
  | executed {n : Nat} {k : Machine} (h : Machine.Executes program start (n + 1) k) :
      Reached program start (n + 1) k
  | nothing {k : Machine} (h : start.step program = (.ok .idle, k)) : Reached program start 0 k

section

variable {program : Program} {config : MachineConfig} {n : Nat} {k : Machine}

theorem Reached.sound (h : Reached program (.new config) n k) : k.hart.Sound := by
  have zero : (Machine.new config).hart.Sound := Hart.sound_zero config.memorySize
  cases h with
  | executed h => exact h.sound zero
  | nothing h => exact (Machine.Attempt.of_step h).sound zero

theorem Reached.size (h : Reached program (.new config) n k) :
    k.hart.memory.size = config.memorySize := by
  cases h with
  | executed h => exact h.size
  | nothing h => exact (Machine.Attempt.of_step h).size

/-- A machine that has not halted was reached by instructions in a row, and stands in the
    program. -/
theorem Reached.executes (h : Reached program (.new config) n k) (running : k.hart.halted = false) :
    Machine.Executes program (.new config) n k ∧ k.hart.pc.toNat < program.size := by
  cases h with
  | executed h => exact ⟨h, h.inside running⟩
  | nothing h =>
    have halted := (Machine.Attempt.of_step h).halted_of_idle
    rw [running] at halted
    cases halted

end

/-- **A chain simulates a machine**: what it hands on is the snapshot of a machine that executed as
    many instructions. The snapshots in between lose nothing a step looks at. -/
theorem Chain.reached {config : MachineConfig} {source : String} {n : Nat} {s : Snapshot}
    (h : Chain config source n s) :
    ∃ program k, Program.parse source = .ok program ∧ Reached program (.new config) n k ∧
      s = (Snapshot.ofHart k.hart).withInstructions program.records := by
  induction h with
  | @first out after step =>
    cases hp : Program.parse source with
    | error error =>
      rw [step_of_parse_error _ hp] at step
      cases step
    | ok program =>
      obtain ⟨outcome, k, hs, eq⟩ | ⟨error, k, hs, eq⟩ :=
        first_step (new config) hp
      · rw [eq] at step
        cases step
        refine ⟨program, k, rfl, ?_, rfl⟩
        cases outcome with
        | executed => exact .executed (.more .none hs)
        | idle => exact .nothing hs
      · rw [eq] at step
        cases step
  | @next n snapshot session after text out before running same step ih =>
    obtain ⟨program, k, hp, reached, rfl⟩ := ih
    obtain ⟨executes, inside⟩ := reached.executes running
    obtain ⟨outcome, k', m, hk, eq⟩ | ⟨error, k', m, hk, eq, -⟩ :=
      next_step program reached.sound (reached.size.trans (congrArg _ same.symm)) text
    · rw [eq] at step
      cases step
      refine ⟨program, k', hp, ?_, rfl⟩
      cases outcome with
      | executed => exact .executed (.more executes hk)
      | idle => exact absurd (Machine.Attempt.of_step hk) (Machine.Attempt.not_idle running inside)
    · rw [eq] at step
      cases step

/-- **A chain fails where the machine does**, with its error and on its hart, unless the source
    does not parse. -/
theorem ChainFails.reached {config : MachineConfig} {source : String} {n : Nat}
    {error : SessionError} {after : Session} (h : ChainFails config source n error after) :
    (∃ e, Program.parse source = .error e ∧ n = 0 ∧ error = .parse e ∧ after = new config) ∨
    (∃ program k e k', Program.parse source = .ok program ∧
      Machine.Executes program (.new config) n k ∧ k.step program = (.error e, k') ∧
      error = .machine e ∧ after.machine.hart = k'.hart) := by
  cases h with
  | first step =>
    cases hp : Program.parse source with
    | error e =>
      rw [step_of_parse_error _ hp] at step
      cases step
      exact .inl ⟨e, rfl, rfl, rfl, rfl⟩
    | ok program =>
      obtain ⟨outcome, k', hs, eq⟩ | ⟨e, k', hs, eq⟩ :=
        first_step (new config) hp
      · rw [eq] at step
        cases step
      · rw [eq] at step
        cases step
        exact .inr ⟨program, _, e, k', rfl, .none, hs, rfl, rfl⟩
  | @next n snapshot session after text error before running same step =>
    obtain ⟨program, k, hp, reached, rfl⟩ := before.reached
    obtain ⟨outcome, k', m, hk, eq⟩ | ⟨e, k', m, hk, eq, hart⟩ :=
      next_step program reached.sound (reached.size.trans (congrArg _ same.symm)) text
    · rw [eq] at step
      cases step
    · rw [eq] at step
      cases step
      exact .inr ⟨program, k, e, k', hp, (reached.executes running).1, hk, rfl, hart⟩

/-! ## 4. Every chain ends -/

/-- What comes back from a step either executed one instruction, or none and has halted. -/
theorem steps_of_step {session after : Session} {source : String} {snapshot : Option Snapshot}
    {out : RunOutput} (h : session.step source snapshot = (.ok out, after)) :
    out.steps = 1 ∨ out.steps = 0 ∧ out.snapshot.halted = true := by
  cases hp : programOf source snapshot with
  | error e => simp [step, hp] at h
  | ok program =>
    cases hm : session.startOf snapshot with
    | error e => simp [step, hp, hm] at h
    | ok machine =>
      obtain ⟨outcome, m, hs, eq⟩ | ⟨e, m, hs, eq⟩ := step_of_start _ hp hm
      · rw [eq] at h
        cases h
        cases outcome with
        | executed => exact .inl rfl
        | idle => exact .inr ⟨rfl, (Machine.Attempt.of_step hs).halted_of_idle⟩
      · rw [eq] at h
        cases h

/-- **A chain ends, or goes on to any number of instructions.** -/
theorem chain_ends_or_executes (config : MachineConfig) (source : String) (n : Nat) :
    (∃ k s, Chain config source k s ∧ s.halted = true ∧ k ≤ n + 1) ∨
    (∃ k e after, ChainFails config source k e after ∧ k < n + 1) ∨
    (∃ s, Chain config source (n + 1) s ∧ s.halted = false) := by
  induction n with
  | zero =>
    rcases hs : (new config).step source none with ⟨e | out, after⟩
    · exact .inr (.inl ⟨0, e, after, .first hs, by omega⟩)
    · have steps := steps_of_step hs
      have chain := Chain.first hs
      cases halted : out.snapshot.halted with
      | true => exact .inl ⟨out.steps, out.snapshot, chain, halted, by omega⟩
      | false =>
        have one : out.steps = 1 := by simpa [halted] using steps
        rw [one] at chain
        exact .inr (.inr ⟨out.snapshot, chain, halted⟩)
  | succ n ih =>
    obtain ⟨k, s, chain, halted, le⟩ | ⟨k, e, after, fails, lt⟩ | ⟨s, chain, running⟩ := ih
    · exact .inl ⟨k, s, chain, halted, by omega⟩
    · exact .inr (.inl ⟨k, e, after, fails, by omega⟩)
    · rcases hs : (new config).step source (some s) with ⟨e | out, after⟩
      · exact .inr (.inl ⟨n + 1, e, after, .next chain running rfl hs, by omega⟩)
      · have steps := steps_of_step hs
        have chain := Chain.next chain running rfl hs
        cases halted : out.snapshot.halted with
        | true => exact .inl ⟨_, out.snapshot, chain, halted, by omega⟩
        | false =>
          have one : out.steps = 1 := by simpa [halted] using steps
          rw [one] at chain
          exact .inr (.inr ⟨out.snapshot, chain, halted⟩)

/-! ## 5. The run -/

section

variable {config : MachineConfig} {program : Program} {n : Nat} {k k' : Machine}

theorem run_of_reached (h : Reached program (.new config) n k) (halted : k.hart.halted = true)
    (positive : 1 ≤ config.maxSteps) (le : n ≤ config.maxSteps) :
    (Machine.new config).run program = (.ok n, k) := by
  cases h with
  | executed h => exact Machine.run_of_executes_halted h halted le
  | nothing h =>
    have stops : Machine.Stops program (.new config) 0 (.new config) :=
      ⟨.none, by rw [h]; exact nofun⟩
    rw [Machine.run_of_stops stops positive, h]
    rfl

theorem run_of_step_error {e : MachineError} (h : Machine.Executes program (.new config) n k)
    (hk : k.step program = (.error e, k')) (lt : n < config.maxSteps) :
    (Machine.new config).run program = (.error e, k') := by
  have stops : Machine.Stops program (.new config) n k := ⟨h, by rw [hk]; exact nofun⟩
  rw [Machine.run_of_stops stops lt, hk]
  rfl

theorem run_of_limit (h : Machine.Executes program (.new config) config.maxSteps k)
    (running : k.hart.halted = false) :
    (Machine.new config).run program = (.error (.stepLimit config.maxSteps), k) := by
  have ended := Machine.run_of_executes_all h
  rw [running] at ended
  exact ended

end

/-- **Stepping with threaded snapshots equals a run.** The first three parts say how a run ends for
    every way a chain of steps can end; the fourth, that errors of parsing are the same on both
    sides; the last, that every source has a chain that ends in one of the three ways. -/
theorem run_of_threaded_steps (config : MachineConfig) (source : String)
    (positive : 1 ≤ config.maxSteps) :
    (∀ n s, Chain config source n s → s.halted = true → n ≤ config.maxSteps →
      ((new config).run source).1 = .ok ⟨{ s with instructions := none }, n⟩) ∧
    (∀ n e after, ChainFails config source n e after → n < config.maxSteps →
      ((new config).run source).1 = .error e ∧
        ((new config).run source).2.machine.hart = after.machine.hart) ∧
    (∀ s, Chain config source config.maxSteps s → s.halted = false →
      ((new config).run source).1 = .error (.machine (.stepLimit config.maxSteps))) ∧
    (∀ e, ((new config).run source).1 = .error (.parse e) ↔
      ((new config).step source none).1 = .error (.parse e)) ∧
    ((∃ n s, Chain config source n s ∧ s.halted = true ∧ n ≤ config.maxSteps) ∨
      (∃ n e after, ChainFails config source n e after ∧ n < config.maxSteps) ∨
      (∃ s, Chain config source config.maxSteps s ∧ s.halted = false)) := by
  refine ⟨fun n s chain halted le => ?_, fun n e after fails lt => ?_,
    fun s chain running => ?_, fun e => ?_, ?_⟩
  · obtain ⟨program, k, hp, reached, rfl⟩ := chain.reached
    rw [run_of_ok (new config) hp (run_of_reached reached halted positive le)]
    rfl
  · obtain ⟨e, hp, rfl, rfl, rfl⟩ | ⟨program, k, e, k', hp, executes, hk, rfl, hart⟩ :=
      fails.reached
    · rw [run_of_parse_error _ hp]
      exact ⟨rfl, rfl⟩
    · rw [run_of_error (new config) hp (run_of_step_error executes hk lt)]
      exact ⟨rfl, hart.symm⟩
  · obtain ⟨program, k, hp, reached, rfl⟩ := chain.reached
    rw [run_of_error (new config) hp (run_of_limit (reached.executes running).1 running)]
  · cases hp : Program.parse source with
    | error error => rw [run_of_parse_error _ hp, step_of_parse_error _ hp]
    | ok program => exact iff_of_false (run_ne_parse_error _ hp e) (step_ne_parse_error _ hp e)
  · obtain ⟨n, hn⟩ := Nat.exists_eq_add_of_le' positive
    rw [hn]
    exact chain_ends_or_executes config source n

/-- An instruction and a halt, stepped through on two sessions: the chain and the run come to the
    same state, after two instructions. -/
theorem run_of_threaded_steps_halt :
    let config : MachineConfig := ⟨4, 9, 1⟩
    let source := "ADDI x1, x0, 5\nHLT"
    let records := (Program.parse source).toOption.map (·.records)
    let last : Snapshot := ⟨0 :: 5 :: .replicate 30 0, [], 1, true, records⟩
    Chain config source 2 last ∧
      ((new config).run source).1 = .ok ⟨{ last with instructions := none }, 2⟩ := by
  intro config source records last
  have first : ((new config).step source none).1.toOption =
      some ⟨⟨0 :: 5 :: .replicate 30 0, [], 1, false, records⟩, 1⟩ := by decide +kernel
  have next : ((new config).step ""
      (some ⟨0 :: 5 :: .replicate 30 0, [], 1, false, records⟩)).1.toOption = some ⟨last, 1⟩ := by
    decide +kernel
  have chain : Chain config source 2 last :=
    .next (.first (Prod.ext (eq_ok_of_toOption first) rfl)) rfl rfl
      (Prod.ext (eq_ok_of_toOption next) rfl)
  exact ⟨chain, (run_of_threaded_steps config source (by decide)).1 2 last chain rfl (by decide)⟩

end Session

end Rv32i
