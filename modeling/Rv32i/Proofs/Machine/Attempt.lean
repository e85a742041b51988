import Rv32i.Machine.Run
import Rv32i.Proofs.Machine.HartInvariant

/-!
# Attempts and executed steps

`Machine.step` nests its checks. `Attempt` lists what one attempt can do, one case each, and
`attempt_step` says that a step is one of them; what a step preserves is then read off the cases.

* `step_congr`: only the records of the program and the hart decide a step;
* `Executes`: a number of instructions executed one after the other;
* `runWithin_of_executes`: a run goes through the instructions executed, and what is left of its
  budget is spent from where they lead;
* `Machine.Conforms` is the invariant of the machines of a configuration, and `Machine.Settled` what
  holds right after an attempt: `Conforms.run` and `run_settled` say so of runs.
-/

namespace Rv32i

namespace Machine

/-! ## 1. One attempt -/

/-- **What an attempt can do**: its outcome, and the machine it leaves. -/
inductive Attempt (program : Program) (m : Machine) :
    Except MachineError StepOutcome → Machine → Prop
  | halted (stays : m.hart.halted = true) : Attempt program m (.ok .idle) m
  | outside (running : m.hart.halted = false)
      (fetch : program.record? m.hart.pc.toNat = none) : Attempt program m (.ok .idle) m.halt
  | undecodable {record : Record} {error : DecodeError} (running : m.hart.halted = false)
      (fetch : program.record? m.hart.pc.toNat = some record)
      (decode : record.decode = .error error) : Attempt program m (.error (.decode error)) m
  | faulting {record : Record} {i : Instruction} {fault : Fault} (running : m.hart.halted = false)
      (fetch : program.record? m.hart.pc.toNat = some record) (decode : record.decode = .ok i)
      (effect : i.effect m.hart = .error fault) :
      Attempt program m (.error (.fault record.line fault)) (m.note record)
  | executed {record : Record} {i : Instruction} {e : Effect} (running : m.hart.halted = false)
      (fetch : program.record? m.hart.pc.toNat = some record) (decode : record.decode = .ok i)
      (effect : i.effect m.hart = .ok e) :
      Attempt program m (.ok .executed) ((m.note record).apply program e)

/-- **A step is an attempt.** -/
theorem attempt_step (program : Program) (m : Machine) :
    Attempt program m (m.step program).1 (m.step program).2 := by
  unfold step
  split
  · rename_i stays
    exact .halted stays
  · rename_i stays
    have running : m.hart.halted = false := by simpa using stays
    split
    · rename_i fetch
      exact .outside running fetch
    · rename_i record fetch
      split
      · rename_i error decode
        exact .undecodable running fetch decode
      · rename_i i decode
        have noted : (m.note record).hart = m.hart := rfl
        simp only [noted]
        split
        · rename_i fault effect
          exact .faulting running fetch decode effect
        · rename_i e effect
          exact .executed running fetch decode effect

theorem Attempt.of_step {program : Program} {m m' : Machine}
    {result : Except MachineError StepOutcome} (h : m.step program = (result, m')) :
    Attempt program m result m' := by
  have := attempt_step program m
  rwa [h] at this

/-- **A step looks at the records and the hart only**: the history is noted and the labels are
    resolved, so equal records and harts step alike. -/
theorem step_congr {program other : Program} (records : program.records = other.records)
    {m k : Machine} (hart : m.hart = k.hart) :
    (m.step program).1 = (k.step other).1 ∧ (m.step program).2.hart = (k.step other).2.hart := by
  have fetch : program.record? k.hart.pc.toNat = other.record? k.hart.pc.toNat := by
    rw [Program.record?, Program.record?, records]
  have size : program.size = other.size := congrArg Array.size records
  unfold step
  rw [hart, fetch]
  split
  · exact ⟨rfl, hart⟩
  · split
    · exact ⟨rfl, congrArg Hart.halt hart⟩
    · rename_i record _
      split
      · exact ⟨rfl, hart⟩
      · have noted : (m.note record).hart = (k.note record).hart := hart
        simp only [noted]
        split
        · exact ⟨rfl, hart⟩
        · refine ⟨rfl, ?_⟩
          simp only [apply, noted, size]

/-! ## 2. What an attempt preserves -/

@[simp] theorem size_hart_apply (program : Program) (m : Machine) (e : Effect) :
    (m.apply program e).hart.memory.size = m.hart.memory.size := by
  unfold apply
  dsimp only
  split <;> exact Hart.size_apply ..

theorem Attempt.size {program : Program} {m m' : Machine}
    {result : Except MachineError StepOutcome} (h : Attempt program m result m') :
    m'.hart.memory.size = m.hart.memory.size := by
  cases h with
  | executed => exact size_hart_apply ..
  | _ => rfl

/-- **No attempt leaves the invariant.** -/
theorem Attempt.sound {program : Program} {m m' : Machine}
    {result : Except MachineError StepOutcome} (h : Attempt program m result m')
    (sound : m.hart.Sound) : m'.hart.Sound := by
  cases h with
  | halted => exact sound
  | outside => exact sound.halt
  | undecodable => exact sound
  | faulting => exact sound
  | executed running fetch decode effect =>
    have after := sound.apply effect
    unfold apply
    dsimp only
    split
    · exact after.halt
    · exact after

/-- What is noted of an attempt does not change the depth of the history. -/
theorem Attempt.depth {program : Program} {m m' : Machine}
    {result : Except MachineError StepOutcome} (h : Attempt program m result m') :
    m'.history.depth = m.history.depth := by
  cases h with
  | faulting => exact History.depth_push ..
  | executed => exact History.depth_push ..
  | _ => rfl

/-- An idle attempt leaves the machine halted. -/
theorem Attempt.halted_of_idle {program : Program} {m m' : Machine}
    (h : Attempt program m (.ok .idle) m') : m'.hart.halted = true := by
  cases h with
  | halted stays => exact stays
  | outside => rfl

/-- **An executed instruction that does not halt stays in the program.** -/
theorem Attempt.inside_of_executed {program : Program} {m m' : Machine}
    (h : Attempt program m (.ok .executed) m') (running : m'.hart.halted = false) :
    m'.hart.pc.toNat < program.size := by
  cases h with
  | executed =>
    unfold apply at running ⊢
    dsimp only at running ⊢
    split at running
    · cases running
    · rename_i inside
      rw [if_neg inside]
      omega

/-- From inside the program a running machine never attempts in vain. -/
theorem Attempt.not_idle {program : Program} {m m' : Machine} (running : m.hart.halted = false)
    (inside : m.hart.pc.toNat < program.size) : ¬ Attempt program m (.ok .idle) m' := by
  intro h
  cases h with
  | halted stays =>
    rw [running] at stays
    cases stays
  | outside _ fetch =>
    have : program.size ≤ m.hart.pc.toNat := Array.getElem?_eq_none_iff.mp fetch
    omega

/-! ## 3. Instructions in a row -/

/-- **`n` instructions executed one after the other** from one machine to another. -/
inductive Executes (program : Program) (m : Machine) : Nat → Machine → Prop
  | none : Executes program m 0 m
  | more {n : Nat} {k l : Machine} (before : Executes program m n k)
      (step : k.step program = (.ok .executed, l)) : Executes program m (n + 1) l

theorem Executes.sound {program : Program} {m k : Machine} {n : Nat}
    (h : Executes program m n k) (sound : m.hart.Sound) : k.hart.Sound := by
  induction h with
  | none => exact sound
  | more _ step ih => exact (Attempt.of_step step).sound ih

theorem Executes.size {program : Program} {m k : Machine} {n : Nat}
    (h : Executes program m n k) : k.hart.memory.size = m.hart.memory.size := by
  induction h with
  | none => rfl
  | more _ step ih => exact (Attempt.of_step step).size.trans ih

/-- After at least one instruction a machine has halted or stands in the program. -/
theorem Executes.inside {program : Program} {m k : Machine} {n : Nat}
    (h : Executes program m (n + 1) k) (running : k.hart.halted = false) :
    k.hart.pc.toNat < program.size := by
  cases h with
  | more _ step => exact (Attempt.of_step step).inside_of_executed running

/-- An attempt that executes starts from a running machine. -/
theorem Attempt.running_of_executed {program : Program} {m m' : Machine}
    (h : Attempt program m (.ok .executed) m') : m.hart.halted = false := by
  cases h with
  | executed running => exact running

theorem Attempt.maxSteps {program : Program} {m m' : Machine}
    {result : Except MachineError StepOutcome} (h : Attempt program m result m') :
    m'.maxSteps = m.maxSteps := by
  cases h <;> rfl

theorem Executes.maxSteps {program : Program} {m k : Machine} {n : Nat}
    (h : Executes program m n k) : k.maxSteps = m.maxSteps := by
  induction h with
  | none => rfl
  | more _ step ih => exact (Attempt.of_step step).maxSteps.trans ih

/-! ## 4. Runs -/

/-- **A run goes through the instructions executed**, and each costs one of its budget. -/
theorem runWithin_of_executes {program : Program} {m k : Machine} {n : Nat}
    (h : Executes program m n k) (executed budget : Nat) :
    m.runWithin program executed (n + budget) = k.runWithin program (executed + n) budget := by
  induction h generalizing budget with
  | none => rw [Nat.zero_add, Nat.add_zero]
  | @more n k l before step ih =>
    have running := (Attempt.of_step step).running_of_executed
    rw [Nat.add_assoc, Nat.add_comm 1, ih, runWithin, running, step, Nat.add_assoc]
    rfl

theorem runWithin_of_halted {program : Program} {m : Machine} (halted : m.hart.halted = true)
    (executed budget : Nat) : m.runWithin program executed budget = (.ok executed, m) := by
  cases budget <;> rw [runWithin, if_pos halted]

/-- **A run keeps what every attempt keeps.** -/
theorem runWithin_preserves {program : Program} {Kept : Machine → Prop}
    (attempt : ∀ {m result m'}, Kept m → Attempt program m result m' → Kept m') {m : Machine}
    (kept : Kept m) (executed budget : Nat) : Kept (m.runWithin program executed budget).2 := by
  induction budget generalizing m executed with
  | zero =>
    rw [runWithin]
    split
    · exact kept
    · exact kept
  | succ budget ih =>
    rw [runWithin]
    split
    · exact kept
    · have after := attempt kept (attempt_step program m)
      split
      · rename_i step
        rw [step] at after
        exact ih after (executed + 1)
      · rename_i step
        rwa [step] at after
      · rename_i step
        rwa [step] at after

/-! ## 5. Machines of a configuration -/

/-- **What holds of every machine of a configuration.** -/
structure Conforms (config : MachineConfig) (m : Machine) : Prop where
  hart : m.hart.Sound
  size : m.hart.memory.size = config.memorySize
  depth : m.history.depth = config.historyDepth
  maxSteps : m.maxSteps = config.maxSteps

section

variable {config : MachineConfig} {program : Program} {m m' : Machine}

theorem withHart_conforms {h : Hart} (sound : h.Sound)
    (size : h.memory.size = config.memorySize) : (withHart config h).Conforms config :=
  ⟨sound, size, rfl, rfl⟩

theorem Conforms.reset (conforms : m.Conforms config) : m.reset.Conforms config :=
  ⟨Hart.sound_zero _, conforms.size, conforms.depth, conforms.maxSteps⟩

theorem Conforms.attempt {result : Except MachineError StepOutcome} (conforms : m.Conforms config)
    (h : Attempt program m result m') : m'.Conforms config where
  hart := h.sound conforms.hart
  size := h.size.trans conforms.size
  depth := h.depth.trans conforms.depth
  maxSteps := h.maxSteps.trans conforms.maxSteps

theorem Conforms.run (conforms : m.Conforms config) : (m.run program).2.Conforms config :=
  runWithin_preserves Conforms.attempt conforms 0 m.maxSteps

/-- The history shows no more entries than it was configured for. -/
theorem Conforms.length_le (conforms : m.Conforms config) :
    m.history.length ≤ config.historyDepth :=
  conforms.depth ▸ m.history.length_le_depth

end

/-! ## 6. Settled machines -/

/-- The machine has halted or stands in the program. -/
def Settled (program : Program) (m : Machine) : Prop :=
  m.hart.halted = true ∨ m.hart.pc.toNat < program.size

/-- **Every attempt leaves a settled machine**, whatever its outcome. -/
theorem Attempt.settled {program : Program} {m m' : Machine}
    {result : Except MachineError StepOutcome} (h : Attempt program m result m') :
    m'.Settled program := by
  have inside {pc : Nat} {record : Record} (fetch : program.record? pc = some record) :
      pc < program.size := (Array.getElem?_eq_some_iff.mp fetch).1
  cases h with
  | halted stays => exact .inl stays
  | outside => exact .inl rfl
  | undecodable _ fetch => exact .inr (inside fetch)
  | faulting _ fetch => exact .inr (inside fetch)
  | @executed record i e running fetch decode effect =>
    have attempt := Attempt.executed running fetch decode effect
    cases halts : ((m.note record).apply program e).hart.halted with
    | true => exact .inl halts
    | false => exact .inr (attempt.inside_of_executed halts)

/-- **A run that may make an attempt leaves a settled machine.** -/
theorem run_settled {program : Program} {m : Machine} (budget : 1 ≤ m.maxSteps) :
    (m.run program).2.Settled program := by
  rw [run]
  obtain ⟨left, eq⟩ := Nat.exists_eq_add_of_le' budget
  rw [eq, runWithin]
  split
  · rename_i halted
    exact .inl halted
  · have first := (attempt_step program m).settled
    split
    · rename_i step
      rw [step] at first
      exact runWithin_preserves (fun _ h => h.settled) first _ _
    · rename_i step
      rwa [step] at first
    · rename_i step
      rwa [step] at first

end Machine

end Rv32i
