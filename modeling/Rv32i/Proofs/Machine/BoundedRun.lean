import Rv32i.Proofs.Machine.Attempt

/-!
# A run is a bounded number of steps

`Machine.run` steps with a budget. Here a run is read off the steps alone, with no budget in
between: the machine executes instructions one after the other (`Executes`) until a step executes
none (`Stops`), because the machine has halted, has nothing to fetch, or the step fails.

* `executes_or_stops`: any number of instructions is executed, or the machine stops before;
* `run_of_stops`: a machine that stops below the limit ends its run with that step;
* `run_of_executes_all`: one that does not stop is left where the limit has brought it, and then
  it matters only whether it has halted (`run_of_executes_halted`);
* `Ends` lists the four ways a run ends, and `run_eq_iff` says that there are no others.

The main statement, `run_iterates_step`, says which result comes about when.
-/

namespace Rv32i

namespace Machine

/-! ## 1. Where the instructions end -/

/-- **`k` instructions are executed in a row**, and the step after them executes none. -/
structure Stops (program : Program) (m : Machine) (k : Nat) (l : Machine) : Prop where
  executes : Executes program m k l
  ends : (l.step program).1 ≠ .ok .executed

/-- A running machine whose program counter is outside the program. -/
def Outside (program : Program) (m : Machine) : Prop :=
  m.hart.halted = false ∧ program.size ≤ m.hart.pc.toNat

section

variable {program : Program} {m l : Machine} {k : Nat}

/-- A number of instructions is executed, or the machine stops before. -/
theorem executes_or_stops (program : Program) (m : Machine) (n : Nat) :
    (∃ l, Executes program m n l) ∨ ∃ k < n, ∃ l, Stops program m k l := by
  induction n with
  | zero => exact .inl ⟨m, .none⟩
  | succ n ih =>
    rcases ih with ⟨l, executes⟩ | ⟨k, lt, l, stops⟩
    · by_cases ends : (l.step program).1 = .ok .executed
      · exact .inl ⟨(l.step program).2, .more executes (Prod.ext ends rfl)⟩
      · exact .inr ⟨n, Nat.lt_succ_self n, l, executes, ends⟩
    · exact .inr ⟨k, Nat.lt_succ_of_lt lt, l, stops⟩

/-- A number of instructions, executed one after the other, leads to one machine only. -/
theorem Executes.unique {l' : Machine} (h : Executes program m k l)
    (h' : Executes program m k l') : l = l' := by
  induction h generalizing l' with
  | none =>
    cases h'
    rfl
  | more _ step ih =>
    cases h' with
    | more before again =>
      cases ih before
      exact congrArg Prod.snd (step.symm.trans again)

/-- A machine that has executed some instructions has executed fewer before. -/
theorem Executes.shorter {n : Nat} (h : Executes program m n l) (lt : k < n) :
    ∃ before, Executes program m k before ∧ (before.step program).1 = .ok .executed := by
  induction h with
  | none => exact absurd lt (Nat.not_lt_zero k)
  | more before step ih =>
    rcases Nat.lt_succ_iff_lt_or_eq.mp lt with lt | rfl
    · exact ih lt
    · exact ⟨_, before, congrArg Prod.fst step⟩

/-- **The instructions executed end at one place.** -/
theorem Stops.unique {k' : Nat} {l' : Machine} (h : Stops program m k l)
    (h' : Stops program m k' l') : k = k' ∧ l = l' := by
  rcases Nat.lt_trichotomy k k' with lt | rfl | gt
  · obtain ⟨before, executes, step⟩ := h'.executes.shorter lt
    exact absurd (executes.unique h.executes ▸ step) h.ends
  · exact ⟨rfl, h.executes.unique h'.executes⟩
  · obtain ⟨before, executes, step⟩ := h.executes.shorter gt
    exact absurd (executes.unique h'.executes ▸ step) h'.ends

/-! ## 2. Idle and failing steps -/

/-- A step is idle exactly if the machine has halted or is outside the program. -/
theorem step_eq_idle_iff :
    (l.step program).1 = .ok .idle ↔ l.hart.halted = true ∨ l.Outside program := by
  constructor
  · intro idle
    rcases stepped : l.step program with ⟨result, after⟩
    rw [stepped] at idle
    subst idle
    cases Attempt.of_step stepped with
    | halted stays => exact .inl stays
    | outside running fetch => exact .inr ⟨running, Array.getElem?_eq_none_iff.mp fetch⟩
  · rintro (halted | ⟨running, outside⟩)
    · rw [step, if_pos halted]
    · have fetch : program.record? l.hart.pc.toNat = none := Array.getElem?_eq_none_iff.mpr outside
      simp only [step, running, fetch, Bool.false_eq_true, if_false]

/-- A halted machine steps to itself. -/
theorem step_of_halted (halted : l.hart.halted = true) : l.step program = (.ok .idle, l) := by
  rw [step, if_pos halted]

/-- Instructions never lead outside the program without halting. -/
theorem Executes.eq_zero_of_outside (h : Executes program m k l) (outside : l.Outside program) :
    k = 0 := by
  cases k with
  | zero => rfl
  | succ k =>
    have inside := h.inside outside.1
    exact absurd outside.2 (Nat.not_le_of_lt inside)

/-- The limit is no concern of a step. -/
theorem step_ne_stepLimit (program : Program) (l : Machine) (n : Nat) :
    (l.step program).1 ≠ .error (.stepLimit n) := by
  intro failed
  rcases stepped : l.step program with ⟨result, after⟩
  rw [stepped] at failed
  subst failed
  cases Attempt.of_step stepped

/-- A machine that has halted stops where it is. -/
theorem Executes.stops_of_halted (h : Executes program m k l) (halted : l.hart.halted = true) :
    Stops program m k l := by
  refine ⟨h, ?_⟩
  rw [step_of_halted halted]
  exact nofun

/-! ## 3. How a run ends -/

/-- **A machine that stops below the limit ends its run with that step**: idle, the run has
    succeeded; failing, it fails with the same error. -/
theorem run_of_stops (h : Stops program m k l) (lt : k < m.maxSteps) :
    m.run program = ((l.step program).1.map fun _ => k, (l.step program).2) := by
  obtain ⟨budget, left⟩ := Nat.exists_eq_add_of_lt lt
  have through := runWithin_of_executes h.executes 0 (budget + 1)
  rw [Nat.zero_add, ← Nat.add_assoc, ← left] at through
  rw [run, through, runWithin]
  split
  · rename_i halted
    rw [step_of_halted halted]
    rfl
  · have ends := h.ends
    rcases stepped : l.step program with ⟨error | outcome, l'⟩
    · rfl
    · cases outcome with
      | executed => exact absurd (congrArg Prod.fst stepped) ends
      | idle => rfl

/-- **A machine that executes as many instructions as it may** has to have halted by then. -/
theorem run_of_executes_all (h : Executes program m m.maxSteps l) :
    m.run program =
      (if l.hart.halted then .ok m.maxSteps else .error (.stepLimit m.maxSteps), l) := by
  have through := runWithin_of_executes h 0 0
  rw [Nat.zero_add, Nat.add_zero] at through
  rw [run, through, runWithin, h.maxSteps]
  split <;> rfl

/-- A machine that has halted by then has succeeded. -/
theorem run_of_executes_halted (h : Executes program m k l) (halted : l.hart.halted = true)
    (le : k ≤ m.maxSteps) : m.run program = (.ok k, l) := by
  obtain ⟨budget, left⟩ := Nat.exists_eq_add_of_le le
  have through := runWithin_of_executes h 0 budget
  rw [Nat.zero_add, ← left] at through
  rw [run, through, runWithin_of_halted halted]

/-- **The four ways a run ends**, each with its result. -/
inductive Ends (program : Program) (m : Machine) : Except MachineError Nat → Prop
  | halted {k : Nat} {l : Machine} (stops : Stops program m k l) (halted : l.hart.halted = true)
      (le : k ≤ m.maxSteps) : Ends program m (.ok k)
  | outside {l : Machine} (stops : Stops program m 0 l) (outside : l.Outside program)
      (positive : 1 ≤ m.maxSteps) : Ends program m (.ok 0)
  | failing {k : Nat} {l : Machine} {error : MachineError} (stops : Stops program m k l)
      (lt : k < m.maxSteps) (failed : (l.step program).1 = .error error) :
      Ends program m (.error error)
  | limit {l : Machine} (executes : Executes program m m.maxSteps l)
      (running : l.hart.halted = false) : Ends program m (.error (.stepLimit m.maxSteps))

/-- Every run ends in one of them. -/
theorem run_ends (program : Program) (m : Machine) : Ends program m (m.run program).1 := by
  rcases executes_or_stops program m m.maxSteps with ⟨l, executes⟩ | ⟨k, lt, l, stops⟩
  · rw [run_of_executes_all executes]
    cases halted : l.hart.halted with
    | true => exact .halted (executes.stops_of_halted halted) halted (Nat.le_refl _)
    | false => exact .limit executes halted
  · rw [run_of_stops stops lt]
    cases stepped : (l.step program).1 with
    | error error => exact .failing stops lt stepped
    | ok outcome =>
      cases outcome with
      | executed => exact absurd stepped stops.ends
      | idle =>
        rcases step_eq_idle_iff.mp stepped with halted | outside
        · exact .halted stops halted (Nat.le_of_lt lt)
        · have start := stops.executes.eq_zero_of_outside outside
          subst start
          exact .outside stops outside lt

/-- **A run has a result exactly if it ends so.** -/
theorem run_eq_iff {result : Except MachineError Nat} :
    (m.run program).1 = result ↔ Ends program m result := by
  constructor
  · rintro rfl
    exact run_ends program m
  · intro ends
    cases ends with
    | halted stops halted le => rw [run_of_executes_halted stops.executes halted le]
    | outside stops outside positive =>
      rw [run_of_stops stops positive, step_eq_idle_iff.mpr (.inr outside)]
      rfl
    | failing stops lt failed =>
      rw [run_of_stops stops lt, failed]
      rfl
    | limit executes running =>
      rw [run_of_executes_all executes, running]
      rfl

/-! ## 4. Runs and steps -/

/-- What a run that succeeds has come to. -/
theorem run_eq_ok_iff :
    (m.run program).1 = .ok k ↔ ∃ l, Stops program m k l ∧
      (l.hart.halted = true ∧ k ≤ m.maxSteps ∨ l.Outside program ∧ k = 0 ∧ 1 ≤ m.maxSteps) := by
  rw [run_eq_iff]
  constructor
  · intro ends
    cases ends with
    | halted stops halted le => exact ⟨_, stops, .inl ⟨halted, le⟩⟩
    | outside stops outside positive => exact ⟨_, stops, .inr ⟨outside, rfl, positive⟩⟩
  · rintro ⟨l, stops, ⟨halted, le⟩ | ⟨outside, rfl, positive⟩⟩
    · exact .halted stops halted le
    · exact .outside stops outside positive

/-- What a run that fails has come to. -/
theorem run_eq_error_iff {error : MachineError} :
    (m.run program).1 = .error error ↔
      (∃ k l, Stops program m k l ∧ k < m.maxSteps ∧ (l.step program).1 = .error error) ∨
      (error = .stepLimit m.maxSteps ∧
        ∃ l, Executes program m m.maxSteps l ∧ l.hart.halted = false) := by
  rw [run_eq_iff]
  constructor
  · intro ends
    cases ends with
    | failing stops lt failed => exact .inl ⟨_, _, stops, lt, failed⟩
    | limit executes running => exact .inr ⟨rfl, _, executes, running⟩
  · rintro (⟨k, l, stops, lt, failed⟩ | ⟨rfl, l, executes, running⟩)
    · exact .failing stops lt failed
    · exact .limit executes running

end

/-- **A run is bounded iteration of the step.** It succeeds exactly if the instructions end, within
    the limit, in a machine that has halted, or if the machine starts outside the program and may
    make a step at all. It fails with an error of a step exactly if that step follows on fewer
    instructions than the limit. In all other cases, which are those of a machine that is still
    running when it has executed as many instructions as it may, it fails at the limit. What it
    leaves is the machine that these steps lead to, state and history. -/
theorem run_iterates_step (program : Program) (m : Machine) :
    (∀ k, (m.run program).1 = .ok k ↔ ∃ l, Stops program m k l ∧
      (l.hart.halted = true ∧ k ≤ m.maxSteps ∨ l.Outside program ∧ k = 0 ∧ 1 ≤ m.maxSteps)) ∧
    (∀ error, (∀ n, error ≠ .stepLimit n) → ((m.run program).1 = .error error ↔
      ∃ k l, Stops program m k l ∧ k < m.maxSteps ∧ (l.step program).1 = .error error)) ∧
    (∀ n, (m.run program).1 = .error (.stepLimit n) ↔
      n = m.maxSteps ∧ ∃ l, Executes program m m.maxSteps l ∧ l.hart.halted = false) ∧
    (∀ k l, Stops program m k l → k < m.maxSteps →
      (m.run program).2 = (l.step program).2) ∧
    (∀ l, Executes program m m.maxSteps l → (m.run program).2 = l) ∧
    (∀ k l k' l', Stops program m k l → Stops program m k' l' → k = k' ∧ l = l') ∧
    ((∃ l, Executes program m m.maxSteps l) ∨
      ∃ k < m.maxSteps, ∃ l, Stops program m k l) := by
  refine ⟨fun k => run_eq_ok_iff, fun error own => ?_, fun n => ?_, fun k l stops lt => ?_,
    fun l executes => ?_, fun _ _ _ _ => Stops.unique, executes_or_stops program m m.maxSteps⟩
  · rw [run_eq_error_iff]
    exact or_iff_left fun limit => own _ limit.1
  · have noStep : ¬ ∃ k l, Stops program m k l ∧ k < m.maxSteps ∧
        (l.step program).1 = .error (.stepLimit n) :=
      fun ⟨_, l, _, _, failed⟩ => step_ne_stepLimit program l n failed
    rw [run_eq_error_iff, or_iff_right noStep, MachineError.stepLimit.injEq]
  · rw [run_of_stops stops lt]
  · rw [run_of_executes_all executes]

/-- A load that faults as the second instruction: allowed two instructions the run fails with the
    fault, allowed one it fails at the limit, and the attempt at the load is not even noted. -/
theorem run_iterates_step_fault :
    let address : Record :=
      { opcode := .addi, format := .i, index := 0, line := 1, source := "addi x1, x0, 2",
        rd := some 1, rs1 := some 0, imm := some 2 }
    let load : Record :=
      { opcode := .lw, format := .il, index := 1, line := 2, source := "lw x2, 0(x1)",
        rd := some 2, rs1 := some 1, imm := some 0 }
    let program := Program.ofRecords #[address, load]
    let start (maxSteps : Nat) := Machine.new ⟨16, maxSteps, 4⟩
    let fault := MachineError.fault 2 (.access (.misaligned 2 .word))
    ((start 2).run program).1 = .error fault ∧
      ((start 2).run program).2.history.length = 2 ∧
      ((start 1).run program).1 = .error (.stepLimit 1) ∧
      ((start 1).run program).2.history.length = 1 := by
  intro address load program start fault
  have first (maxSteps : Nat) :
      Executes program (start maxSteps) 1 ((start maxSteps).step program).2 :=
    .more .none rfl
  have failing (maxSteps : Nat) :
      ((((start maxSteps).step program).2).step program).1 = .error fault := rfl
  have stops : Stops program (start 2) 1 ((start 2).step program).2 :=
    ⟨first 2, by rw [failing]; exact nofun⟩
  obtain ⟨-, own, -, ended, -⟩ := run_iterates_step program (start 2)
  obtain ⟨-, -, limit, -, left, -⟩ := run_iterates_step program (start 1)
  refine ⟨(own fault nofun).mpr ⟨1, _, stops, by decide, failing 2⟩, ?_,
    (limit 1).mpr ⟨rfl, _, first 1, rfl⟩, ?_⟩
  · rw [ended 1 _ stops (by decide)]
    decide +kernel
  · rw [left _ (first 1)]
    decide +kernel

end Machine

end Rv32i
