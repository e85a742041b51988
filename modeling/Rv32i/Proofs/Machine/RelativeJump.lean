import Rv32i.Isa.Word
import Rv32i.Machine.Effect

/-!
# Relative jumps

Branches and `jal` say by how many bytes they jump. `Hart.relativeSlot` counts such an offset in
whole slots, rounded toward zero, and adds it to the program counter. Byte addresses put it another
way: the jump leads to the address of the current slot plus the offset, and to the slot that holds
that byte. `jalr` is given addresses and reaches that slot.

* `Hart.relativeSlot_of_nonneg`, `Hart.relativeSlot_of_neg`: a jump succeeds exactly if the slot it
  counts to is not negative, and below 2^32 it lands on that slot;
* `Instruction.execute_of_relative`: so does an instruction that transfers control;
* `relative_jump_rounds_toward_zero`: the two ways agree, but for a jump back by an offset that is
  no multiple of four, which stops a slot short.
-/

namespace Rv32i

/-! ## 1. Slots -/

namespace Hart

/-- The slot that a byte offset counts to, before it is checked. -/
def countedSlot (h : Hart) (offset : Word) : Int :=
  h.pc.toNat + offset.toInt.tdiv 4

theorem relativeSlot_of_neg {h : Hart} {offset : Word} (neg : h.countedSlot offset < 0) :
    h.relativeSlot offset = .error (.jumpTarget (h.countedSlot offset)) := by
  rw [countedSlot] at neg ⊢
  rw [relativeSlot, if_pos neg]

theorem relativeSlot_of_nonneg {h : Hart} {offset : Word} (lo : 0 ≤ h.countedSlot offset)
    (hi : h.countedSlot offset < 2 ^ 32) :
    h.relativeSlot offset = .ok (BitVec.ofNat 32 (h.countedSlot offset).toNat) := by
  rw [countedSlot] at lo hi ⊢
  have fits : min (h.pc.toNat + offset.toInt.tdiv 4).toNat (2 ^ 32 - 1) =
      (h.pc.toNat + offset.toInt.tdiv 4).toNat := by omega
  rw [relativeSlot, if_neg (by omega), fits]

/-- An offset that is a multiple of four counts as many slots as it has words. -/
theorem four_mul_countedSlot {h : Hart} {offset : Word} (aligned : offset.toInt % 4 = 0) :
    4 * h.countedSlot offset = 4 * h.pc.toNat + offset.toInt := by
  have whole : offset.toInt.tdiv 4 * 4 = offset.toInt :=
    Int.tdiv_mul_cancel (Int.dvd_of_emod_eq_zero aligned)
  rw [countedSlot]
  omega

/-- The byte address that an offset leads to. -/
def targetAddress (h : Hart) (offset : Word) : Int :=
  4 * h.pc.toNat + offset.toInt

/-- **The slot counted to** holds the target's byte, or for an even offset that is negative and no
    multiple of four, the byte two further on. -/
theorem countedSlot_eq_ediv {h : Hart} {offset : Word} (even : offset.toInt % 2 = 0) :
    h.countedSlot offset = if 0 ≤ offset.toInt ∨ offset.toInt % 4 = 0 then
      h.targetAddress offset / 4 else (h.targetAddress offset + 2) / 4 := by
  rw [countedSlot, targetAddress, Int.tdiv_eq_ediv]
  by_cases down : 0 ≤ offset.toInt ∨ offset.toInt % 4 = 0
  · have exact : 0 ≤ offset.toInt ∨ 4 ∣ offset.toInt :=
      down.imp id Int.dvd_of_emod_eq_zero
    rw [if_pos exact, if_pos down]
    omega
  · have inexact : ¬ (0 ≤ offset.toInt ∨ 4 ∣ offset.toInt) :=
      fun h => down (h.imp id Int.emod_eq_zero_of_dvd)
    rw [if_neg inexact, if_neg down]
    have sign : Int.sign 4 = 1 := rfl
    omega

end Hart

/-- Clearing the lowest bit rounds down to an even number. -/
theorem and_not_one (a : Word) : a &&& ~~~(1 : Word) = .ofNat 32 (a.toNat / 2 * 2) := by
  have shifts : a &&& ~~~(1 : Word) = (a >>> 1) <<< 1 := by
    apply BitVec.eq_of_getLsbD_eq
    intro i hi
    have one : (1 : Word).getLsbD i = decide (i = 0) := by simp [BitVec.getLsbD_one]
    rw [BitVec.getLsbD_and, BitVec.getLsbD_not, one, BitVec.getLsbD_shiftLeft,
      BitVec.getLsbD_ushiftRight]
    cases i with
    | zero => simp
    | succ i => simp [hi, Nat.add_comm]
  apply BitVec.eq_of_toNat_eq
  rw [shifts, BitVec.toNat_shiftLeft, BitVec.toNat_ushiftRight, Nat.shiftLeft_eq,
    Nat.shiftRight_eq_div_pow, BitVec.toNat_ofNat]

/-! ## 2. Instructions that jump -/

namespace Instruction

/-- The instruction may go to an offset from where it stands: a branch, or a jump. -/
inductive Relative (offset : Word) : Instruction → Prop
  | branch (cond : Cond) (rs1 rs2 : Reg) : Relative offset (.branch cond rs1 rs2 offset)
  | jal (rd : Reg) : Relative offset (.jal rd offset)

/-- The instruction goes elsewhere than to the next slot: every jump does, and a branch whose
    condition holds. -/
def transfers (h : Hart) : Instruction → Bool
  | branch cond rs1 rs2 _ => cond.holds (h.reg rs1) (h.reg rs2)
  | jal .. | jalr .. => true
  | _ => false

/-- **A transfer of control by whole slots succeeds** and lands on the slot it counts to. -/
theorem execute_of_relative {i : Instruction} {offset : Word} (relative : i.Relative offset)
    {h : Hart} {t : Nat} (small : t < 2 ^ 32) (counts : h.countedSlot offset = t)
    (transfers : i.transfers h = true) : ∃ h', i.execute h = .ok h' ∧ h'.pc.toNat = t := by
  have slot : h.relativeSlot offset = .ok (BitVec.ofNat 32 t) := by
    rw [Hart.relativeSlot_of_nonneg (by omega) (by omega), counts, Int.toNat_natCast]
  have lands : (BitVec.ofNat 32 t).toNat = t := by
    rw [BitVec.toNat_ofNat, Nat.mod_eq_of_lt small]
  cases relative with
  | branch cond rs1 rs2 =>
    refine ⟨h.apply (.goto (BitVec.ofNat 32 t)), ?_, lands⟩
    have taken : cond.holds (h.reg rs1) (h.reg rs2) = true := transfers
    rw [execute, effect, if_pos taken, slot]
    rfl
  | jal rd =>
    refine ⟨h.apply (.write rd h.linkAddress (BitVec.ofNat 32 t)), ?_, lands⟩
    rw [execute, effect, slot]
    rfl

/-- **A transfer of control to before the first slot fails**, and names that slot. -/
theorem execute_of_relative_neg {i : Instruction} {offset : Word} (relative : i.Relative offset)
    {h : Hart} (neg : h.countedSlot offset < 0) (transfers : i.transfers h = true) :
    i.execute h = .error (.jumpTarget (h.countedSlot offset)) := by
  have slot := Hart.relativeSlot_of_neg neg
  cases relative with
  | branch cond rs1 rs2 =>
    have taken : cond.holds (h.reg rs1) (h.reg rs2) = true := transfers
    rw [execute, effect, if_pos taken, slot]
    rfl
  | jal rd =>
    rw [execute, effect, slot]
    rfl

/-- **The instruction jumps to a byte address**: to the slot that holds the byte, and to none if the
    address is negative. -/
def JumpsTo (i : Instruction) (h : Hart) (address : Int) : Prop :=
  (0 ≤ address → ∃ h', i.execute h = .ok h' ∧ (h'.pc.toNat : Int) = address / 4) ∧
  (address < 0 → i.execute h = .error (.jumpTarget (address / 4)))

/-- A transfer of control jumps to every byte of the slot it counts to. -/
theorem jumpsTo_of_countedSlot {i : Instruction} {offset : Word} (relative : i.Relative offset)
    {h : Hart} (transfers : i.transfers h = true) {address : Int}
    (counts : h.countedSlot offset = address / 4) (small : address < 2 ^ 34) :
    i.JumpsTo h address := by
  refine ⟨fun nonneg => ?_, fun neg => ?_⟩
  · have whole : h.countedSlot offset = (address / 4).toNat := by omega
    obtain ⟨h', executes, lands⟩ := execute_of_relative relative (by omega) whole transfers
    exact ⟨h', executes, by omega⟩
  · rw [execute_of_relative_neg relative (by omega) transfers, counts]

/-- `jalr` jumps to the byte address it is given. -/
theorem jalr_jumpsTo {h : Hart} (rd : Reg) {rs1 : Reg} {imm : Word} {address : Int}
    (nonneg : 0 ≤ address) (small : address < 2 ^ 32)
    (given : h.reg rs1 + imm = BitVec.ofInt 32 address) : (jalr rd rs1 imm).JumpsTo h address := by
  refine ⟨fun _ => ⟨_, rfl, ?_⟩, fun neg => absurd nonneg (by omega)⟩
  show ((((h.reg rs1 + imm) &&& ~~~1) >>> 2).toNat : Int) = address / 4
  rw [and_not_one, given, BitVec.toNat_ushiftRight, BitVec.toNat_ofNat, BitVec.toNat_ofInt,
    Nat.shiftRight_eq_div_pow]
  omega

end Instruction

/-- **Relative jumps count in slots, rounded toward zero.** From a slot whose byte address is a
    word, by an even offset in the range of a jump, which holds that of a branch. A jump forward or
    by a multiple of four leads to the slot that holds the target's byte, and so does `jalr` to the
    same address; before the first slot it fails. Any other jump back leads to the slot that holds
    the byte two further on, which is the slot after. -/
theorem relative_jump_rounds_toward_zero {h : Hart} {i : Instruction} {offset : Word}
    (relative : i.Relative offset) (transfers : i.transfers h = true)
    (slot : h.pc.toNat < 2 ^ 30) (range : (Field.signed 21).admits offset.toInt = true)
    (even : offset.toInt % 2 = 0) :
    (0 ≤ offset.toInt ∨ offset.toInt % 4 = 0 → i.JumpsTo h (h.targetAddress offset)) ∧
    (offset.toInt < 0 → offset.toInt % 4 ≠ 0 → i.JumpsTo h (h.targetAddress offset + 2)) ∧
    ∀ rd rs1 imm, 0 ≤ h.targetAddress offset → h.targetAddress offset < 2 ^ 32 →
      h.reg rs1 + imm = BitVec.ofInt 32 (h.targetAddress offset) →
      (Instruction.jalr rd rs1 imm).JumpsTo h (h.targetAddress offset) := by
  have counted : h.countedSlot offset = _ := Hart.countedSlot_eq_ediv even
  have near : offset.toInt ≤ 2 ^ 20 - 1 := (Field.admits_iff.mp range).2
  have small : h.targetAddress offset + 2 < 2 ^ 34 := by
    rw [Hart.targetAddress]
    omega
  refine ⟨fun down => ?_, fun back part => ?_, fun rd rs1 imm nonneg below given => ?_⟩
  · rw [if_pos down] at counted
    exact Instruction.jumpsTo_of_countedSlot relative transfers counted (by omega)
  · rw [if_neg (by omega)] at counted
    exact Instruction.jumpsTo_of_countedSlot relative transfers counted small
  · exact Instruction.jalr_jumpsTo rd nonneg below given

/-- From slot 3 back by a word and a half: a jump and a branch lead to slot 2, and `jalr` to the
    same byte leads to slot 1. -/
theorem relative_jump_rounds_toward_zero_back :
    let h : Hart := { (Hart.zero 4).setReg 1 6 with pc := 3 }
    let jump : Instruction := .jal 5 (-6)
    let branch : Instruction := .branch .ltu 0 1 (-6)
    jump.JumpsTo h 8 ∧ branch.JumpsTo h 8 ∧ (Instruction.jalr 0 1 0).JumpsTo h 6 := by
  intro h jump branch
  have address : h.targetAddress (-6) = 6 := by decide
  obtain ⟨-, jumps, registers⟩ := @relative_jump_rounds_toward_zero h jump (-6)
    (.jal 5) rfl (by decide) (by decide) (by decide)
  obtain ⟨-, branches, -⟩ := @relative_jump_rounds_toward_zero h branch (-6)
    (.branch .ltu 0 1) rfl (by decide) (by decide) (by decide)
  rw [address] at jumps branches registers
  exact ⟨jumps (by decide) (by decide), branches (by decide) (by decide),
    registers 0 1 0 (by decide) (by decide) (by decide)⟩

/-- **Not every jump leads to the slot of its byte.** Back by half a slot: from slot 1 it stays
    where it is, although `jalr` to the same byte goes to slot 0, and from slot 0 it does not fail,
    although no slot holds the byte. -/
theorem relative_jump_stays :
    let h : Hart := { Hart.zero 4 with pc := 1 }
    let jump : Instruction := .jal 0 (-2)
    (h.targetAddress (-2) = 2 ∧ jump.execute h = .ok h ∧ ¬ jump.JumpsTo h 2 ∧
      (Instruction.jalr 0 0 2).JumpsTo h 2) ∧
    ((Hart.zero 4).targetAddress (-2) = -2 ∧ jump.execute (.zero 4) = .ok (.zero 4)) := by
  intro h jump
  have stays : jump.execute h = .ok h := rfl
  refine ⟨⟨by decide, stays, fun ⟨reaches, _⟩ => ?_, ?_⟩, by decide, rfl⟩
  · obtain ⟨h', executes, lands⟩ := reaches (by decide)
    cases stays.symm.trans executes
    exact absurd lands (by decide)
  · exact Instruction.jalr_jumpsTo 0 (by decide) (by decide) (by decide)

end Rv32i
