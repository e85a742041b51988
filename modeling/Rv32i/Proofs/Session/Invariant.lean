import Rv32i.Proofs.Session.Threading

/-!
# What a session keeps

Requests come in any order, with any sources and with snapshots from anywhere, and some of them
fail. `Session.Sound` holds of the session all the same.

* `Session.run_cases`, `Session.step_cases`: what a request does to a session;
* `Session.Sound.serve`: one request preserves the invariant, and `Session.sound_serveAll`: so do
  all of them one after the other;
* `session_invariant`: after any requests register 0 is zero, the memory has its size and the
  history fits; a run or a step that gets as far as the machine leaves it halted or in the program.
-/

namespace Rv32i

namespace Session

/-! ## 1. Requests -/

/-- What can be asked of a session. -/
inductive Request
  | run (source : String)
  | step (source : String) (snapshot : Option Snapshot)
  | reset

/-- The session after a request. -/
def serve (session : Session) : Request → Session
  | .run source => (session.run source).2
  | .step source snapshot => (session.step source snapshot).2
  | .reset => session.reset.2

/-- The session after requests, one after the other. -/
def serveAll (session : Session) (requests : List Request) : Session :=
  requests.foldl serve session

/-- **What a run does**: it fails to parse and changes nothing, or runs the zeroed machine. -/
theorem run_cases (session : Session) (source : String) :
    (∃ error, session.run source = (.error (.parse error), session)) ∨
    ∃ program, Program.parse source = .ok program ∧
      (session.run source).2 =
        { session with machine := (session.machine.reset.run program).2 } := by
  cases parsed : Program.parse source with
  | error error => exact .inl ⟨error, run_of_parse_error session parsed⟩
  | ok program =>
    refine .inr ⟨program, rfl, ?_⟩
    rcases ran : session.machine.reset.run program with ⟨error | steps, machine⟩
    · rw [run_of_error session parsed ran]
    · rw [run_of_ok session parsed ran]

/-- **What a step does**: it has no program or no machine to start from and changes nothing, or
    steps that machine. -/
theorem step_cases (session : Session) (source : String) (snapshot : Option Snapshot) :
    (∃ error, session.step source snapshot = (.error (.parse error), session)) ∨
    (∃ error, session.step source snapshot = (.error (.snapshot error), session)) ∨
    ∃ program machine, programOf source snapshot = .ok program ∧
      session.startOf snapshot = .ok machine ∧
      (session.step source snapshot).2 =
        { session with machine := (machine.step program).2 } := by
  cases parsed : programOf source snapshot with
  | error error =>
    refine .inl ⟨error, ?_⟩
    simp only [step, parsed]
  | ok program =>
    cases start : session.startOf snapshot with
    | error error =>
      refine .inr (.inl ⟨error, ?_⟩)
      simp only [step, parsed, start]
    | ok machine =>
      refine .inr (.inr ⟨program, machine, rfl, rfl, ?_⟩)
      obtain ⟨_, after, stepped, eq⟩ | ⟨_, after, stepped, eq⟩ :=
        step_of_start source parsed start
      · rw [eq, stepped]
      · rw [eq, stepped]

/-! ## 2. The invariant -/

/-- **What holds of every session**: its machine is one of its configuration. -/
structure Sound (config : MachineConfig) (session : Session) : Prop where
  same : session.config = config
  machine : session.machine.Conforms config

section

variable {config : MachineConfig} {session : Session}

theorem sound_new (config : MachineConfig) : (new config).Sound config where
  same := rfl
  machine := Machine.withHart_conforms (Hart.sound_zero config.memorySize) rfl

/-- A step starts from a machine of the configuration, wherever its snapshot is from. -/
theorem Sound.startOf (sound : session.Sound config) {snapshot : Option Snapshot}
    {machine : Machine} (start : session.startOf snapshot = .ok machine) :
    machine.Conforms config := by
  cases snapshot with
  | none =>
    cases start
    exact sound.machine
  | some snapshot =>
    obtain ⟨same, -⟩ := sound
    subst same
    unfold Session.startOf at start
    cases restored : snapshot.restore session.config.memorySize with
    | error error =>
      simp only [restored] at start
      cases start
    | ok h =>
      simp only [restored] at start
      cases start
      have restores := Snapshot.restores_of_restore restored
      exact Machine.withHart_conforms restores.sound restores.size

/-- **No request leaves the invariant**, whether it succeeds or fails. -/
theorem Sound.serve (sound : session.Sound config) (request : Request) :
    (session.serve request).Sound config := by
  cases request with
  | run source =>
    show Sound config (session.run source).2
    rcases session.run_cases source with ⟨error, unchanged⟩ | ⟨program, -, ran⟩
    · rw [unchanged]
      exact sound
    · rw [ran]
      exact ⟨sound.same, sound.machine.reset.run⟩
  | step source snapshot =>
    show Sound config (session.step source snapshot).2
    rcases session.step_cases source snapshot with
      ⟨error, unchanged⟩ | ⟨error, unchanged⟩ | ⟨program, machine, -, start, stepped⟩
    · rw [unchanged]
      exact sound
    · rw [unchanged]
      exact sound
    · rw [stepped]
      exact ⟨sound.same, (sound.startOf start).attempt (Machine.attempt_step program machine)⟩
  | reset => exact ⟨sound.same, sound.machine.reset⟩

/-- **No sequence of requests leaves the invariant.** -/
theorem Sound.serveAll (sound : session.Sound config) (requests : List Request) :
    (session.serveAll requests).Sound config := by
  induction requests generalizing session with
  | nil => exact sound
  | cons request requests ih => exact ih (sound.serve request)

end

/-! ## 3. Where requests leave the machine -/

/-- A run that parses leaves the machine halted or in its program, if it may make a step. -/
theorem Sound.run_settled {config : MachineConfig} {session : Session}
    (sound : session.Sound config) (budget : 1 ≤ config.maxSteps) {source : String}
    (parses : ∀ error, (session.run source).1 ≠ .error (.parse error)) :
    ∃ program, Program.parse source = .ok program ∧
      (session.run source).2.machine.Settled program := by
  rcases session.run_cases source with ⟨error, failed⟩ | ⟨program, parsed, ran⟩
  · exact absurd (congrArg Prod.fst failed) (parses error)
  · refine ⟨program, parsed, ?_⟩
    rw [ran]
    exact Machine.run_settled (sound.machine.maxSteps ▸ budget)

/-- A step that has a program and a machine leaves it halted or in that program. -/
theorem step_settled {session : Session} {source : String} {snapshot : Option Snapshot}
    (parses : ∀ error, (session.step source snapshot).1 ≠ .error (.parse error))
    (restores : ∀ error, (session.step source snapshot).1 ≠ .error (.snapshot error)) :
    ∃ program, programOf source snapshot = .ok program ∧
      (session.step source snapshot).2.machine.Settled program := by
  rcases session.step_cases source snapshot with
    ⟨error, failed⟩ | ⟨error, failed⟩ | ⟨program, machine, parsed, -, stepped⟩
  · exact absurd (congrArg Prod.fst failed) (parses error)
  · exact absurd (congrArg Prod.fst failed) (restores error)
  · refine ⟨program, parsed, ?_⟩
    rw [stepped]
    exact (Machine.attempt_step program machine).settled

/-- **Whatever is asked of a session**, its machine has register 0 at zero, the memory and at most
    the history of the configuration. If a run may make a step at all, then after any run or step
    that fails neither to parse nor to restore, the machine has halted or stands in the program of
    that request. -/
theorem session_invariant (config : MachineConfig) (requests : List Request) :
    let session := (new config).serveAll requests
    session.machine.hart.reg 0 = 0 ∧
    session.machine.hart.memory.size = config.memorySize ∧
    session.machine.history.length ≤ config.historyDepth ∧
    (1 ≤ config.maxSteps → ∀ source,
      (∀ error, (session.run source).1 ≠ .error (.parse error)) →
      ∃ program, Program.parse source = .ok program ∧
        (session.serve (.run source)).machine.Settled program) ∧
    ∀ source snapshot,
      (∀ error, (session.step source snapshot).1 ≠ .error (.parse error)) →
      (∀ error, (session.step source snapshot).1 ≠ .error (.snapshot error)) →
      ∃ program, programOf source snapshot = .ok program ∧
        (session.serve (.step source snapshot)).machine.Settled program := by
  intro session
  have sound : session.Sound config := (sound_new config).serveAll requests
  exact ⟨sound.machine.hart.zero, sound.machine.size, sound.machine.length_le,
    fun budget source parses => sound.run_settled budget parses,
    fun source snapshot parses restores => step_settled parses restores⟩

/-- A snapshot that writes register 0 and stands far behind its program, and after it an endless
    loop, run and stepped. -/
theorem session_invariant_endless :
    let config : MachineConfig := { memorySize := 16, maxSteps := 3, historyDepth := 2 }
    let wild : Snapshot := { registers := List.replicate 32 7, pc := 99, halted := false }
    let loop := "on: jal x1, on"
    let session := (new config).serveAll [.run "lw x0, 20(x0)", .step loop (some wild), .run loop]
    session.machine.hart.reg 0 = 0 ∧ session.machine.hart.memory.size = 16 ∧
      session.machine.history.length ≤ 2 ∧
      ∃ program, Program.parse loop = .ok program ∧ program.size = 1 ∧
        (session.serve (.run loop)).machine.Settled program ∧
        (session.serve (.step loop none)).machine.Settled program := by
  intro config wild loop session
  obtain ⟨zero, size, history, runs, steps⟩ := session_invariant config
    [.run "lw x0, 20(x0)", .step loop (some wild), .run loop]
  let r : Record :=
    { opcode := .jal, format := .uj, index := 0, line := 1, source := "jal x1, on", rd := some 1,
      imm := some 0, label := some "on" }
  have parsed : Program.parse loop = .ok ⟨#[r], ⟨[⟨"on", 0, 1, 0⟩]⟩⟩ :=
    eq_ok_of_toOption (by decide +kernel)
  obtain ⟨program, again, ran⟩ := runs (by decide) loop (run_ne_parse_error _ parsed)
  cases parsed.symm.trans again
  have restores : ∀ error, (session.step loop none).1 ≠ .error (.snapshot error) := by
    intro error
    obtain ⟨_, _, -, eq⟩ | ⟨_, _, -, eq⟩ := first_step session parsed
    · rw [eq]
      exact nofun
    · rw [eq]
      exact nofun
  obtain ⟨program, again, stepped⟩ := steps loop none (step_ne_parse_error _ parsed) restores
  cases parsed.symm.trans again
  exact ⟨zero, size, history, _, parsed, rfl, ran, stepped⟩

end Session

end Rv32i
