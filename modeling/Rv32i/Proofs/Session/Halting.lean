import Rv32i.Proofs.Machine.Trace
import Rv32i.Proofs.Session.FailedRequest

/-!
# When a machine halts, and that it stays so

A machine halts because its program counter is outside the program, because it executes `hlt`, or
because an instruction leads outside. Once it has halted nothing moves it but zeroing it or putting
another state in its place.

* `Machine.halted_step_iff` lists the three causes, and `step_of_outside`, `step_of_hlt`,
  `step_of_leaving` say what else the step does;
* `Machine.callAll_of_halted`: steps and runs leave a halted machine as it is;
* `Session.serve_of_halted`: so do the requests of a session that do not start over.

The main statement is `halting_discipline`.
-/

namespace Rv32i

namespace Machine

/-! ## 1. The instruction at the program counter -/

/-- The record at the program counter is an instruction. -/
def Fetches (program : Program) (m : Machine) (i : Instruction) : Prop :=
  ∃ record, program.record? m.hart.pc.toNat = some record ∧ record.decode = .ok i

section

variable {program : Program} {m : Machine} {i : Instruction} {h : Hart}

/-- There is no instruction outside the program. -/
theorem Fetches.inside (fetches : Fetches program m i) : m.hart.pc.toNat < program.size := by
  obtain ⟨record, fetch, -⟩ := fetches
  exact (Array.getElem?_eq_some_iff.mp fetch).1

/-! ## 2. Steps that halt -/

/-- Outside the program a running machine halts and does nothing else. -/
theorem step_of_outside (running : m.hart.halted = false)
    (outside : program.size ≤ m.hart.pc.toNat) :
    m.step program = (.ok .idle, { m with hart := { m.hart with halted := true } }) := by
  have fetch : program.record? m.hart.pc.toNat = none := Array.getElem?_eq_none_iff.mpr outside
  simp only [step, running, fetch, Bool.false_eq_true, if_false]
  rfl

/-- **A step executes the instruction at the program counter**, and halts the hart that this leads
    to if it is outside the program. -/
theorem step_of_execute (running : m.hart.halted = false) (fetches : Fetches program m i)
    (executes : i.execute m.hart = .ok h) :
    (m.step program).1 = .ok .executed ∧
      (m.step program).2.hart = if program.size ≤ h.pc.toNat then h.halt else h := by
  obtain ⟨record, fetch, decode⟩ := fetches
  obtain ⟨e, effect, rfl⟩ : ∃ e, i.effect m.hart = .ok e ∧ m.hart.apply e = h := by
    unfold Instruction.execute at executes
    cases effect : i.effect m.hart with
    | error fault =>
      rw [effect] at executes
      cases executes
    | ok e =>
      rw [effect] at executes
      cases executes
      exact ⟨e, rfl, rfl⟩
  have noted : (m.note record).hart = m.hart := rfl
  simp only [step, running, fetch, decode, noted, effect, Bool.false_eq_true, if_false]
  exact ⟨trivial, rfl⟩

/-- `hlt` halts where it is. -/
theorem step_of_hlt (running : m.hart.halted = false) (fetches : Fetches program m .halt) :
    (m.step program).1 = .ok .executed ∧
      (m.step program).2.hart = { m.hart with halted := true } := by
  obtain ⟨executed, hart⟩ := step_of_execute (h := m.hart.halt) running fetches rfl
  have inside : ¬ program.size ≤ m.hart.halt.pc.toNat := Nat.not_le_of_lt fetches.inside
  rw [if_neg inside] at hart
  exact ⟨executed, hart⟩

/-- An instruction that leads outside halts the machine there. -/
theorem step_of_leaving (running : m.hart.halted = false) (fetches : Fetches program m i)
    (executes : i.execute m.hart = .ok h) (outside : program.size ≤ h.pc.toNat) :
    (m.step program).1 = .ok .executed ∧
      (m.step program).2.hart = { h with halted := true } := by
  obtain ⟨executed, hart⟩ := step_of_execute running fetches executes
  rw [if_pos outside] at hart
  exact ⟨executed, hart⟩

/-- **A running machine halts in one step exactly for one of three causes.** -/
theorem halted_step_iff (running : m.hart.halted = false) :
    (m.step program).2.hart.halted = true ↔
      program.size ≤ m.hart.pc.toNat ∨ Fetches program m .halt ∨
      ∃ i h, Fetches program m i ∧ i.execute m.hart = .ok h ∧ program.size ≤ h.pc.toNat := by
  constructor
  · intro halts
    rcases stepped : m.step program with ⟨result, after⟩
    rw [stepped] at halts
    cases Attempt.of_step stepped with
    | halted stays =>
      rw [running] at stays
      cases stays
    | outside _ fetch => exact .inl (Array.getElem?_eq_none_iff.mp fetch)
    | undecodable =>
      rw [running] at halts
      cases halts
    | faulting =>
      have same : m.hart.halted = true := halts
      rw [running] at same
      cases same
    | @executed record i e _ fetch decode effect =>
      have executes : i.execute m.hart = .ok (m.hart.apply e) :=
        congrArg (Except.map m.hart.apply) effect
      by_cases outside : program.size ≤ (m.hart.apply e).pc.toNat
      · exact .inr (.inr ⟨i, _, ⟨record, fetch, decode⟩, executes, outside⟩)
      · -- inside the program only the effect itself can have halted the hart
        have stays : ((m.note record).apply program e).hart = m.hart.apply e := if_neg outside
        have byEffect := Hart.halted_apply m.hart e
        rw [← stays, halts, running, Bool.false_or] at byEffect
        have halting : e = .halt := of_decide_eq_true byEffect.symm
        subst halting
        exact .inr (.inl ⟨record, fetch, Instruction.eq_halt_of_effect effect ▸ decode⟩)
  · rintro (outside | hlt | ⟨i, h, fetches, executes, outside⟩)
    · rw [step_of_outside running outside]
    · rw [(step_of_hlt running hlt).2]
    · rw [(step_of_leaving running fetches executes outside).2]

/-! ## 3. Halted machines -/

theorem run_of_halted (halted : m.hart.halted = true) : m.run program = (.ok 0, m) :=
  runWithin_of_halted halted 0 m.maxSteps

/-- A call that is no reset leaves a halted machine as it is. -/
theorem call_of_halted (halted : m.hart.halted = true) {call : Call} (keeps : call ≠ .reset) :
    m.call call = m := by
  cases call with
  | step program => exact congrArg Prod.snd (step_of_halted halted)
  | run program => exact congrArg Prod.snd (run_of_halted halted)
  | reset => exact absurd rfl keeps

/-- **Only a reset moves a halted machine**, whatever steps and runs it is asked for. -/
theorem callAll_of_halted (halted : m.hart.halted = true) {calls : List Call}
    (keeps : Call.reset ∉ calls) : m.callAll calls = m := by
  induction calls with
  | nil => rfl
  | cons call calls ih =>
    have stays : m.call call = m :=
      call_of_halted halted (List.ne_of_not_mem_cons keeps).symm
    exact (congrArg (callAll · calls) stays).trans (ih (List.not_mem_of_not_mem_cons keeps))

end

end Machine

/-! ## 4. Sessions -/

namespace Session

/-- The request starts over: it zeroes the machine, or puts the state of a snapshot that has not
    halted in its place. -/
def Request.StartsOver : Request → Prop
  | .run source => ∃ program, Program.parse source = .ok program
  | .step _ snapshot => ∃ given, snapshot = some given ∧ given.halted = false
  | .reset => True

/-- A step starts from a halted machine if the session's has halted and the snapshot's, if there is
    one, too. -/
theorem halted_of_startOf {session : Session} {snapshot : Option Snapshot} {start : Machine}
    (halted : session.machine.hart.halted = true)
    (given : ∀ s, snapshot = some s → s.halted = true)
    (starts : session.startOf snapshot = .ok start) : start.hart.halted = true := by
  cases snapshot with
  | none =>
    cases starts
    exact halted
  | some s =>
    rcases session.startOf_some s with ⟨h, restored, start⟩ | ⟨_, _, refused⟩
    · cases starts.symm.trans start
      exact (Snapshot.restores_of_restore restored).halted.trans (given s rfl)
    · cases starts.symm.trans refused

/-- **A request that does not start over leaves a halted machine halted.** -/
theorem serve_of_halted {session : Session} (halted : session.machine.hart.halted = true)
    {request : Request} (keeps : ¬ request.StartsOver) :
    (session.serve request).machine.hart.halted = true := by
  cases request with
  | run source =>
    rcases session.run_cases source with ⟨error, unchanged⟩ | ⟨program, parsed, -⟩
    · rw [serve, unchanged]
      exact halted
    · exact absurd ⟨program, parsed⟩ keeps
  | step source snapshot =>
    rcases session.step_cases source snapshot with
      ⟨error, unchanged⟩ | ⟨error, unchanged⟩ | ⟨program, machine, -, starts, stepped⟩
    · rw [serve, unchanged]
      exact halted
    · rw [serve, unchanged]
      exact halted
    · have given : ∀ s, snapshot = some s → s.halted = true := fun s is =>
        Bool.of_not_eq_false fun running => keeps ⟨s, is, running⟩
      have start := halted_of_startOf halted given starts
      rw [serve, stepped, Machine.step_of_halted start]
      exact start
  | reset => exact absurd trivial keeps

/-- A halted machine that runs again has been started over in between. -/
theorem startsOver_of_serveAll {session : Session} {requests : List Request}
    (halted : session.machine.hart.halted = true)
    (running : (session.serveAll requests).machine.hart.halted = false) :
    ∃ request ∈ requests, request.StartsOver := by
  induction requests generalizing session with
  | nil =>
    have same : session.machine.hart.halted = false := running
    rw [halted] at same
    cases same
  | cons request requests ih =>
    by_cases here : request.StartsOver
    · exact ⟨request, List.mem_cons_self, here⟩
    · obtain ⟨later, mem, startsOver⟩ := ih (serve_of_halted halted here) running
      exact ⟨later, List.mem_cons_of_mem _ mem, startsOver⟩

end Session

/-! ## 5. The discipline -/

/-- **When a machine halts, and that it stays so.** A halted machine steps idly and runs no
    instruction, and stays as it is. A running one halts in one step exactly if its program counter
    is outside the program, where it does nothing else, if it executes `hlt`, which leaves the
    program counter, or if the instruction that it executes leads outside. A step that fails does
    not change the mark. Over any calls the mark goes only with a reset, and over any requests of a
    session only with one that starts over. -/
theorem halting_discipline (program : Program) (m : Machine) :
    (m.hart.halted = true → m.step program = (.ok .idle, m) ∧ m.run program = (.ok 0, m)) ∧
    (m.hart.halted = false →
      ((m.step program).2.hart.halted = true ↔
        program.size ≤ m.hart.pc.toNat ∨ Machine.Fetches program m .halt ∨
        ∃ i h, Machine.Fetches program m i ∧ i.execute m.hart = .ok h ∧
          program.size ≤ h.pc.toNat) ∧
      (program.size ≤ m.hart.pc.toNat →
        m.step program = (.ok .idle, { m with hart := { m.hart with halted := true } })) ∧
      (Machine.Fetches program m .halt → (m.step program).1 = .ok .executed ∧
        (m.step program).2.hart = { m.hart with halted := true }) ∧
      ∀ i h, Machine.Fetches program m i → i.execute m.hart = .ok h →
        program.size ≤ h.pc.toNat → (m.step program).1 = .ok .executed ∧
          (m.step program).2.hart = { h with halted := true }) ∧
    (∀ error, (m.step program).1 = .error error →
      (m.step program).2.hart.halted = m.hart.halted) ∧
    (∀ calls, m.hart.halted = true → (m.callAll calls).hart.halted = false →
      Machine.Call.reset ∈ calls) ∧
    ∀ (session : Session) (requests : List Session.Request),
      session.machine.hart.halted = true →
      (session.serveAll requests).machine.hart.halted = false →
      ∃ request ∈ requests, request.StartsOver := by
  refine ⟨fun halted => ⟨Machine.step_of_halted halted, Machine.run_of_halted halted⟩,
    fun running => ⟨Machine.halted_step_iff running, Machine.step_of_outside running,
      Machine.step_of_hlt running, fun i h => Machine.step_of_leaving running⟩,
    fun error failed => ?_, fun calls halted running => ?_,
    fun session requests => Session.startsOver_of_serveAll⟩
  · have attempt : Machine.Attempt program m (.error error) (m.step program).2 :=
      .of_step (Prod.ext failed rfl)
    rw [attempt.hart_of_error]
  · refine Classical.byContradiction fun keeps => ?_
    rw [Machine.callAll_of_halted halted keeps, halted] at running
    cases running

/-- A jump out of a program of one instruction links and halts. A run leaves that, and a step of
    a program that goes on there, too. -/
theorem halting_discipline_outward_jump :
    let jump : Record :=
      { opcode := .jal, format := .uj, index := 0, line := 1, source := "jal x1, 40",
        rd := some 1, imm := some 40 }
    let program := Program.ofRecords #[jump]
    let m := Machine.new { memorySize := 16, maxSteps := 5, historyDepth := 2 }
    let after := (m.step program).2
    after.hart.halted = true ∧ after.hart.pc = 10 ∧ after.hart.reg 1 = 4 ∧
      after.run program = (.ok 0, after) ∧
      after.step (.ofRecords (Array.replicate 11 jump)) = (.ok .idle, after) := by
  intro jump program m after
  let landed : Hart := m.hart.apply (.write 1 4 10)
  have fetches : Machine.Fetches program m (.jal 1 40) := ⟨jump, rfl, rfl⟩
  have leaves : Instruction.execute (.jal 1 40) m.hart = .ok landed := rfl
  obtain ⟨-, running, -⟩ := halting_discipline program m
  obtain ⟨-, hart⟩ := (running rfl).2.2.2 _ landed fetches leaves (by decide)
  have halted : after.hart.halted = true := congrArg Hart.halted hart
  have link : ({ landed with halted := true } : Hart).reg 1 = 4 := by decide
  refine ⟨halted, congrArg Hart.pc hart, (congrArg (Hart.reg · 1) hart).trans link, ?_, ?_⟩
  · exact ((halting_discipline program after).1 halted).2
  · exact ((halting_discipline (.ofRecords (Array.replicate 11 jump)) after).1 halted).1

end Rv32i
