import Rv32i.Machine.Effect
import Rv32i.Proofs.Machine.MemoryAccess

/-!
# What every hart keeps

A hart that grew out of the zeroed state reads zero in register 0 and in every byte that no word
addresses. `Hart.Sound` says so; effects, halting and resetting preserve it. An effect never
changes the size of memory, and only the halting one halts.

A hart can also be changed from outside, command by command. `Hart.Reachable` are the harts that
come about so, and `Hart.Reachable.sound` says that they are sound, too.
-/

namespace Rv32i

/-- What holds of every hart that grew out of the zeroed state. -/
structure Hart.Sound (h : Hart) : Prop where
  zero : h.reg 0 = 0
  /-- Beyond the last address of a word nothing was ever written. -/
  beyond : ∀ a, 2 ^ 32 ≤ a → h.memory.byte a = 0

/-! ## 1. What an effect can be -/

namespace Instruction

/-- A jump goes where its offset counts to, whatever else it does. -/
theorem eq_of_map_relativeSlot {h : Hart} {offset : Word} {f : Word → Effect} {e : Effect}
    (he : (h.relativeSlot offset).map f = .ok e) : ∃ next, e = f next := by
  cases hs : h.relativeSlot offset with
  | error fault =>
    rw [hs] at he
    cases he
  | ok next =>
    rw [hs] at he
    cases he
    exact ⟨next, rfl⟩

/-- **What an instruction can do**: it writes a register, stores where access is granted, goes
    elsewhere, or is `hlt` and halts. -/
theorem effect_cases {i : Instruction} {h : Hart} {e : Effect} (he : i.effect h = .ok e) :
    (∃ rd value next, e = .write rd value next) ∨
    (∃ width addr value, h.memory.fault? width addr = none ∧ e = .store width addr value) ∨
    (∃ next, e = .goto next) ∨ (i = .halt ∧ e = .halt) := by
  cases i with
  | load o rd rs1 offset =>
    simp only [effect] at he
    split at he
    · cases he
      exact .inl ⟨_, _, _, rfl⟩
    · cases he
  | store width rs1 rs2 offset =>
    simp only [effect] at he
    split at he
    · rename_i granted
      cases he
      exact .inr (.inl ⟨_, _, _, granted, rfl⟩)
    · cases he
  | branch cond rs1 rs2 offset =>
    simp only [effect] at he
    split at he
    · obtain ⟨next, rfl⟩ := eq_of_map_relativeSlot he
      exact .inr (.inr (.inl ⟨next, rfl⟩))
    · cases he
      exact .inr (.inr (.inl ⟨_, rfl⟩))
  | jal rd offset =>
    obtain ⟨next, rfl⟩ := eq_of_map_relativeSlot he
    exact .inl ⟨_, _, _, rfl⟩
  | halt =>
    cases he
    exact .inr (.inr (.inr ⟨rfl, rfl⟩))
  | _ =>
    cases he
    exact .inl ⟨_, _, _, rfl⟩

/-- A store is only ever an effect of an instruction if its access is granted. -/
theorem fault?_of_store_effect {i : Instruction} {h : Hart} {width : Width} {addr value : Word}
    (he : i.effect h = .ok (.store width addr value)) : h.memory.fault? width addr = none := by
  obtain ⟨_, _, _, eq⟩ | ⟨_, _, _, granted, eq⟩ | ⟨_, eq⟩ | ⟨-, eq⟩ := effect_cases he
  all_goals cases eq
  exact granted

/-- Only `hlt` has the halting effect. -/
theorem eq_halt_of_effect {i : Instruction} {h : Hart} (he : i.effect h = .ok .halt) :
    i = .halt := by
  obtain ⟨_, _, _, eq⟩ | ⟨_, _, _, -, eq⟩ | ⟨_, eq⟩ | ⟨halts, -⟩ := effect_cases he
  · cases eq
  · cases eq
  · cases eq
  · exact halts

end Instruction

/-! ## 2. Effects -/

namespace Hart

@[simp] theorem size_apply (h : Hart) (e : Effect) :
    (h.apply e).memory.size = h.memory.size := by
  cases e with
  | write rd value next => exact congrArg Memory.size (memory_setReg h rd value)
  | store width addr value => exact Memory.size_poke ..
  | _ => rfl

/-- Only the halting effect halts. -/
theorem halted_apply (h : Hart) (e : Effect) :
    (h.apply e).halted = (h.halted || decide (e = .halt)) := by
  cases e with
  | write rd value next => simp [apply]
  | halt => simp [apply, halt]
  | _ => simp [apply]

/-- A register written and the next slot, as one effect. -/
theorem advance_setReg (h : Hart) (rd : Reg) (value : Word) :
    (h.setReg rd value).advance = h.apply (.write rd value h.nextSlot) := by
  show (h.setReg rd value).advance = { h.setReg rd value with pc := h.nextSlot }
  unfold setReg
  split <;> rfl

/-- Register 0 cannot be written. -/
theorem reg_zero_setReg (h : Hart) (r : Reg) (value : Word) :
    (h.setReg r value).reg 0 = h.reg 0 := by
  have kept : ¬ ((0 : Reg) = r ∧ (0 : Reg) ≠ 0) := fun ⟨_, ne⟩ => ne rfl
  exact (reg_setReg h r value 0).trans (if_neg kept)

/-- No effect changes register 0. -/
theorem reg_zero_apply (h : Hart) (e : Effect) : (h.apply e).reg 0 = h.reg 0 := by
  cases e with
  | write rd value next => exact reg_zero_setReg h rd value
  | _ => rfl

/-- **A granted store writes nothing beyond the last address of a word**: an aligned access ends
    there. -/
theorem byte_poke_beyond {m : Memory} {width : Width} {addr : Word}
    (granted : m.fault? width addr = none) (value : Word) {a : Nat} (beyond : 2 ^ 32 ≤ a) :
    (m.poke width addr.toNat value).byte a = m.byte a := by
  have bound := addr.isLt
  have inside := Memory.fault?_eq_none_iff.mp granted
  have short : ¬ (addr.toNat ≤ a ∧ a < addr.toNat + width.bytes ∧ a < m.size) := by
    cases width <;> simp only [Width.bytes] at * <;> omega
  exact (Memory.byte_poke ..).trans (if_neg short)

/-- No instruction writes anything beyond the last address of a word. -/
theorem byte_apply_beyond {h : Hart} {i : Instruction} {e : Effect} (he : i.effect h = .ok e)
    {a : Nat} (beyond : 2 ^ 32 ≤ a) : (h.apply e).memory.byte a = h.memory.byte a := by
  cases e with
  | write rd value next => exact congrArg (Memory.byte · a) (memory_setReg h rd value)
  | store width addr value =>
    exact byte_poke_beyond (Instruction.fault?_of_store_effect he) value beyond
  | _ => rfl

/-! ## 3. The invariant -/

theorem sound_zero (memorySize : Nat) : (zero memorySize).Sound where
  zero := rfl
  beyond a _ := Memory.byte_zero memorySize a

theorem Sound.apply {h : Hart} (sound : h.Sound) {i : Instruction} {e : Effect}
    (he : i.effect h = .ok e) : (h.apply e).Sound where
  zero := (reg_zero_apply h e).trans sound.zero
  beyond a ha := (byte_apply_beyond he ha).trans (sound.beyond a ha)

theorem Sound.halt {h : Hart} (sound : h.Sound) : h.halt.Sound :=
  ⟨sound.zero, sound.beyond⟩

/-! ## 4. Changes from outside -/

/-- What can be asked of a hart, beside running instructions. -/
inductive Command
  | setReg (r : Reg) (value : Word)
  | store (width : Width) (addr value : Word)
  | clearMemory
  | setPc (slot : Word)
  | advance
  | halt
  | reset

/-- The hart after a command. A store that is refused changes nothing. -/
def perform (h : Hart) : Command → Hart
  | .setReg r value => h.setReg r value
  | .store width addr value =>
    match h.memory.store width addr value with
    | .ok memory => { h with memory }
    | .error _ => h
  | .clearMemory => { h with memory := h.memory.clear }
  | .setPc slot => { h with pc := slot }
  | .advance => h.advance
  | .halt => h.halt
  | .reset => h.reset

/-- **The harts with a memory of some size**: the zeroed one, and what commands make of them. -/
inductive Reachable (memorySize : Nat) : Hart → Prop
  | zero : Reachable memorySize (.zero memorySize)
  | perform {h : Hart} (reachable : Reachable memorySize h) (command : Command) :
    Reachable memorySize (h.perform command)

/-- A store is refused or pokes what was granted. -/
theorem perform_store (h : Hart) (width : Width) (addr value : Word) :
    h.perform (.store width addr value) = h ∨
      h.memory.fault? width addr = none ∧ h.perform (.store width addr value) =
        { h with memory := h.memory.poke width addr.toNat value } := by
  rw [perform, Memory.store]
  cases granted : h.memory.fault? width addr with
  | some fault => exact .inl rfl
  | none => exact .inr ⟨rfl, rfl⟩

theorem size_perform (h : Hart) (command : Command) :
    (h.perform command).memory.size = h.memory.size := by
  cases command with
  | setReg r value => exact congrArg Memory.size (memory_setReg h r value)
  | store width addr value =>
    rcases h.perform_store width addr value with refused | ⟨-, stored⟩
    · rw [refused]
    · rw [stored]
      exact Memory.size_poke ..
  | _ => rfl

theorem Sound.perform {h : Hart} (sound : h.Sound) (command : Command) :
    (h.perform command).Sound := by
  cases command with
  | setReg r value =>
    refine ⟨(reg_zero_setReg h r value).trans sound.zero, fun a beyond => ?_⟩
    exact (congrArg (Memory.byte · a) (memory_setReg h r value)).trans (sound.beyond a beyond)
  | store width addr value =>
    rcases h.perform_store width addr value with refused | ⟨granted, stored⟩
    · rw [refused]
      exact sound
    · rw [stored]
      refine ⟨sound.zero, fun a beyond => ?_⟩
      exact (byte_poke_beyond granted value beyond).trans (sound.beyond a beyond)
  | clearMemory => exact ⟨sound.zero, fun a _ => Memory.byte_zero _ a⟩
  | reset => exact sound_zero _
  | _ => exact ⟨sound.zero, sound.beyond⟩

theorem Reachable.size {memorySize : Nat} {h : Hart} (reachable : Reachable memorySize h) :
    h.memory.size = memorySize := by
  induction reachable with
  | zero => rfl
  | perform _ command ih => exact (size_perform _ command).trans ih

/-- **Commands lead to sound harts only.** -/
theorem Reachable.sound {memorySize : Nat} {h : Hart} (reachable : Reachable memorySize h) :
    h.Sound := by
  induction reachable with
  | zero => exact sound_zero memorySize
  | perform _ command ih => exact ih.perform command

end Hart

end Rv32i
