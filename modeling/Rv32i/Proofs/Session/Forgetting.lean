import Rv32i.Proofs.Session.Invariant

/-!
# What a session forgets

A session may have served any requests, some of which failed halfway through a run. None of that
reaches a request that starts over: resetting, running a source, and stepping from a snapshot.

* `Machine.Conforms.reset_eq`: zeroing any machine of a configuration makes the new one;
* `Session.Sound.run_eq`, `Session.Sound.step_eq`: what starts over takes nothing from the session
  but its configuration.

The main statement, `past_is_forgotten`, compares a session with any past and a fresh one.
-/

namespace Rv32i

/-! ## 1. Zeroing -/

/-- **Zeroing leaves nothing of a machine** but what its configuration says. -/
theorem Machine.Conforms.reset_eq {config : MachineConfig} {m : Machine}
    (conforms : m.Conforms config) : m.reset = .new config := by
  obtain ⟨-, size, depth, maxSteps⟩ := conforms
  have memory : m.hart.memory.clear = .zero config.memorySize := congrArg Memory.zero size
  have history : m.history.clear = .empty config.historyDepth := congrArg History.empty depth
  rw [Machine.reset, new, withHart, Hart.reset, Hart.zero, memory, history, ← maxSteps]

/-- The snapshot of the zeroed hart lists no cell, whatever its memory. -/
theorem Snapshot.ofHart_zero (memorySize : Nat) : ofHart (.zero memorySize) = zero := by
  have cells : (Memory.zero memorySize).nonzero = [] := List.eq_nil_iff_forall_not_mem.mpr
    fun _ listed =>
      have ⟨addr, ne, _⟩ := Memory.mem_nonzero.mp listed
      ne (Memory.byte_zero memorySize addr)
  rw [ofHart, Hart.zero, cells]
  rfl

/-! ## 2. Requests that start over -/

namespace Session

section

variable {config : MachineConfig} {session : Session}

/-- A sound session is a fresh one but for its machine. -/
theorem Sound.with_machine (sound : session.Sound config) (machine : Machine) :
    { session with machine } = { new config with machine } := by
  obtain ⟨same, -⟩ := sound
  subst same
  rfl

theorem Sound.reset_eq (sound : session.Sound config) : session.reset = (.zero, new config) := by
  rw [reset, sound.machine.reset_eq, sound.with_machine]
  exact congrArg (·, new config) (Snapshot.ofHart_zero config.memorySize)

/-- **A run starts from the zeroed machine**, so all sound sessions come to the same. Only a source
    that does not parse leaves each as it was. -/
theorem Sound.run_eq (sound : session.Sound config) (source : String) :
    (session.run source).1 = ((new config).run source).1 ∧
      ∀ program, Program.parse source = .ok program →
        (session.run source).2 = ((new config).run source).2 := by
  have fresh : (new config).machine.reset = .new config := (sound_new config).machine.reset_eq
  cases parsed : Program.parse source with
  | error error =>
    rw [run_of_parse_error _ parsed, run_of_parse_error _ parsed]
    exact ⟨rfl, nofun⟩
  | ok program =>
    have same : session.run source = (new config).run source := by
      rw [run, run, parsed, sound.machine.reset_eq, fresh]
      simp only [sound.with_machine]
    rw [same]
    exact ⟨rfl, fun _ _ => rfl⟩

/-- A step from a snapshot starts from the machine of the snapshot. -/
theorem Sound.startOf_eq (sound : session.Sound config) (snapshot : Snapshot) :
    session.startOf (some snapshot) = (new config).startOf (some snapshot) := by
  obtain ⟨same, -⟩ := sound
  subst same
  rfl

/-- **A step from a snapshot comes to what it does in a fresh session.** Only a step without a
    program or a machine leaves each session as it was. -/
theorem Sound.step_eq (sound : session.Sound config) (source : String) (snapshot : Snapshot) :
    (session.step source (some snapshot)).1 = ((new config).step source (some snapshot)).1 ∧
      ((∀ error, (session.step source (some snapshot)).1 ≠ .error (.parse error)) →
        (∀ error, (session.step source (some snapshot)).1 ≠ .error (.snapshot error)) →
        (session.step source (some snapshot)).2 =
          ((new config).step source (some snapshot)).2) := by
  cases parsed : programOf source (some snapshot) with
  | error error =>
    simp only [step, parsed]
    exact ⟨trivial, fun parses => absurd rfl (parses error)⟩
  | ok program =>
    cases start : (new config).startOf (some snapshot) with
    | error error =>
      simp only [step, parsed, sound.startOf_eq, start]
      exact ⟨trivial, fun _ restores => absurd rfl (restores error)⟩
    | ok machine =>
      have same : session.step source (some snapshot) =
          (new config).step source (some snapshot) := by
        simp only [step, parsed, sound.startOf_eq, start, sound.with_machine]
      rw [same]
      exact ⟨rfl, fun _ _ => rfl⟩

/-- A step whose snapshot carries instructions does not look at the source. -/
theorem step_of_instructions (session : Session) {snapshot : Snapshot} {records : Array Record}
    (carried : snapshot.instructions = some records) (source other : String) :
    session.step source (some snapshot) = session.step other (some snapshot) := by
  have program (source : String) :
      programOf source (some snapshot) = .ok (.ofRecords records) := by
    rw [programOf, Option.bind_some, carried]
  rw [step, step, program source, program other]

end

/-! ## 3. Two pasts -/

/-- **Whatever was asked of a session before, successful or not**, resetting it comes to the zeroed
    snapshot and a fresh session; running a source comes to the same result as on a fresh session
    and, if the source parses, to the same session; so does stepping from a snapshot, unless it
    fails to parse or to restore, and the source has no part in it if the snapshot carries
    instructions. -/
theorem past_is_forgotten (config : MachineConfig) (requests : List Request) :
    let session := (new config).serveAll requests
    session.reset = (.zero, new config) ∧
    (∀ source, (session.run source).1 = ((new config).run source).1 ∧
      ∀ program, Program.parse source = .ok program →
        (session.run source).2 = ((new config).run source).2) ∧
    (∀ source snapshot,
      (session.step source (some snapshot)).1 = ((new config).step source (some snapshot)).1 ∧
      ((∀ error, (session.step source (some snapshot)).1 ≠ .error (.parse error)) →
        (∀ error, (session.step source (some snapshot)).1 ≠ .error (.snapshot error)) →
        (session.step source (some snapshot)).2 =
          ((new config).step source (some snapshot)).2)) ∧
    ∀ snapshot records, snapshot.instructions = some records → ∀ source other,
      session.step source (some snapshot) = session.step other (some snapshot) := by
  intro session
  have sound : session.Sound config := (sound_new config).serveAll requests
  exact ⟨sound.reset_eq, sound.run_eq, sound.step_eq,
    fun _ _ carried => session.step_of_instructions carried⟩

/-- A session whose past is a run that faulted after it had written a register and memory, and a
    snapshot without registers. -/
theorem past_is_forgotten_fault :
    let config : MachineConfig := { memorySize := 16, maxSteps := 3, historyDepth := 2 }
    let session := (new config).serveAll
      [.run "addi x1, x0, 5\nsb x1, 3(x0)\nlw x2, 2(x0)", .step "" (some ⟨[], [], 0, false, none⟩)]
    let halt := Record.bare .hlt 0 1 "hlt"
    let snapshot : Snapshot := ⟨.replicate 32 7, [], 0, false, some #[halt]⟩
    session.machine.hart.reg 1 = 5 ∧ session.machine.hart.memory.byte 3 = 5 ∧
      session.reset = (.zero, new config) ∧
      (session.run "hlt").2 = ((new config).run "hlt").2 ∧
      (session.step "" (some snapshot)).2 = ((new config).step "" (some snapshot)).2 ∧
      session.step "" (some snapshot) = session.step "bogus" (some snapshot) := by
  intro config session halt snapshot
  obtain ⟨reset, runs, steps, carried⟩ := past_is_forgotten config
    [.run "addi x1, x0, 5\nsb x1, 3(x0)\nlw x2, 2(x0)", .step "" (some ⟨[], [], 0, false, none⟩)]
  have parsed : Program.parse "hlt" = .ok ⟨#[halt], {}⟩ := eq_ok_of_toOption (by decide +kernel)
  have stepped : (session.step "" (some snapshot)).1.toOption =
      some ⟨⟨0 :: .replicate 31 7, [], 0, true, some #[halt]⟩, 1⟩ := by decide +kernel
  have succeeds := eq_ok_of_toOption stepped
  refine ⟨by decide +kernel, by decide +kernel, reset, (runs "hlt").2 _ parsed,
    (steps "" snapshot).2 (fun error => ?_) (fun error => ?_),
    carried snapshot #[halt] rfl "" "bogus"⟩
  · rw [succeeds]
    exact nofun
  · rw [succeeds]
    exact nofun

end Session

end Rv32i
