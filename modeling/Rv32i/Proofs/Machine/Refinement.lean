import Rv32i.Proofs.Machine.Architecture
import Rv32i.Proofs.Machine.HartInvariant
import Rv32i.Proofs.Machine.RelativeJump

/-!
# Execution refines the architecture

`Instruction.execute` works on slots, on a memory of any size and by its own arithmetic.
`Hart.arch` reads a hart as a state of the architecture, and the main statement,
`execute_refines`, says that what is executed is `Arch.step` under this reading.

* `op_result`, `imm_result`, `shift_result`, `holds_iff_taken`: results and conditions agree;
* `arch_write`, `arch_goto`, `arch_store`: every effect reads as the architecture's;
* `Refines`: what it means that one instruction is executed as the architecture says.
-/

namespace Rv32i

/-! ## 1. Results -/

theorem eq_ofNat {a : Word} {n : Nat} (h : a.toNat = n) : a = .ofNat 32 n := by
  rw [← h, BitVec.ofNat_toNat, BitVec.setWidth_eq]

theorem shiftLeft_eq (a : Word) (n : Nat) : a <<< n = Arch.shiftLeft a n := by
  apply BitVec.eq_of_toNat_eq
  rw [Arch.shiftLeft, BitVec.toNat_shiftLeft, BitVec.toNat_ofNat, Nat.shiftLeft_eq]

theorem shiftRight_eq (a : Word) (n : Nat) : a >>> n = Arch.shiftRight a n :=
  eq_ofNat ((BitVec.toNat_ushiftRight a n).trans (Nat.shiftRight_eq_div_pow ..))

theorem sshiftRight_eq (a : Word) (n : Nat) : a.sshiftRight n = Arch.shiftRightArith a n := by
  rw [Arch.shiftRightArith, BitVec.sshiftRight_eq, Int.shiftRight_eq_div_pow]
  rfl

theorem shiftAmount_eq (b : Word) : Arch.shiftAmount b = b.toNat % 32 := by
  rw [Arch.shiftAmount, BitVec.extractLsb'_toNat]
  rfl

theorem add_eq_ofInt (a b : Word) : a + b = .ofInt 32 (a.toInt + b.toInt) := by
  apply BitVec.eq_of_toInt_eq
  rw [BitVec.toInt_add, BitVec.toInt_ofInt]

theorem sub_eq_ofInt (a b : Word) : a - b = .ofInt 32 (a.toInt - b.toInt) := by
  apply BitVec.eq_of_toInt_eq
  rw [BitVec.toInt_sub, BitVec.toInt_ofInt]

theorem ofBool_slt (a b : Word) : Word.ofBool (a.slt b) = Arch.flag (a.toInt < b.toInt) := by
  simp only [Word.ofBool, Arch.flag, BitVec.slt_iff_toInt_lt]

theorem ofBool_ult (a b : Word) : Word.ofBool (a.ult b) = Arch.flag (a.toNat < b.toNat) := by
  simp only [Word.ofBool, Arch.flag, BitVec.ult_iff_toNat_lt]

/-- **Every operation on two registers has the architecture's result.** -/
theorem op_result (o : AluOp) (a b : Word) : o.apply a b = Arch.opResult o a b := by
  cases o with
  | add => exact add_eq_ofInt a b
  | sub => exact sub_eq_ofInt a b
  | sll =>
    rw [AluOp.apply, Arch.opResult, shiftAmount_eq]
    exact shiftLeft_eq ..
  | slt => exact ofBool_slt a b
  | sltu => exact ofBool_ult a b
  | xor => exact eq_ofNat (BitVec.toNat_xor ..)
  | srl =>
    rw [AluOp.apply, Arch.opResult, shiftAmount_eq]
    exact shiftRight_eq ..
  | sra =>
    rw [AluOp.apply, Arch.opResult, shiftAmount_eq]
    exact sshiftRight_eq ..
  | or => exact eq_ofNat (BitVec.toNat_or ..)
  | and => exact eq_ofNat (BitVec.toNat_and ..)

theorem imm_result (o : ImmOp) (a imm : Word) : o.toAluOp.apply a imm = Arch.immResult o a imm := by
  rw [op_result]
  cases o <;> rfl

theorem shift_result (o : ShiftOp) (a : Word) (n : Nat) : o.apply a n = Arch.shiftResult o a n := by
  cases o with
  | sll => exact shiftLeft_eq a n
  | srl => exact shiftRight_eq a n
  | sra => exact sshiftRight_eq a n

theorem holds_iff_taken (cond : Cond) (a b : Word) :
    cond.holds a b = true ↔ Arch.Taken cond a b := by
  cases cond with
  | eq => exact beq_iff_eq
  | ne => exact bne_iff_ne
  | lt => exact BitVec.slt_iff_toInt_lt
  | ge =>
    rw [Cond.holds, Arch.Taken, Bool.not_eq_true', ← Bool.not_eq_true, BitVec.slt_iff_toInt_lt,
      Int.not_lt]
  | ltu => exact BitVec.ult_iff_toNat_lt
  | geu =>
    rw [Cond.holds, Arch.Taken, Bool.not_eq_true', ← Bool.not_eq_true, BitVec.ult_iff_toNat_lt,
      Nat.not_lt]

/-! ## 2. A hart as a state of the architecture -/

namespace Hart

/-- The state of the architecture that a hart shows. Memory is seen at the addresses that a word
    can name. -/
def arch (h : Hart) : Arch where
  x := h.reg
  mem addr := h.memory.byte addr.toNat
  pc := slotAddress h.pc

theorem read_arch {h : Hart} (zero : h.reg 0 = 0) (r : Reg) : h.arch.read r = h.reg r := by
  unfold Arch.read
  split
  · rename_i e
    rw [e, zero]
  · rfl

theorem address_arch {h : Hart} (zero : h.reg 0 = 0) (rs1 : Reg) (offset : Word) :
    h.arch.address rs1 offset = h.reg rs1 + offset := by
  rw [Arch.address, read_arch zero, add_eq_ofInt]

theorem slotAddress_succ (slot : Word) : slotAddress (slot + 1) = slotAddress slot + 4 := by
  unfold slotAddress
  rw [BitVec.add_mul]
  rfl

/-- A write to a register and a jump to a slot, as the architecture sees them. -/
theorem arch_write (h : Hart) (rd : Reg) (value next : Word) :
    (h.apply (.write rd value next)).arch = (h.arch.write rd value).goto (slotAddress next) := by
  apply Arch.ext
  · funext r
    exact reg_setReg h rd value r
  · funext addr
    show (h.setReg rd value).memory.byte _ = _
    rw [memory_setReg]
    rfl
  · rfl

theorem arch_write_next (h : Hart) (rd : Reg) (value : Word) :
    (h.apply (.write rd value h.nextSlot)).arch = (h.arch.write rd value).next := by
  rw [arch_write, nextSlot, slotAddress_succ]
  rfl

theorem arch_goto (h : Hart) (next : Word) :
    (h.apply (.goto next)).arch = h.arch.goto (slotAddress next) := rfl

theorem arch_goto_next (h : Hart) : (h.apply (.goto h.nextSlot)).arch = h.arch.next := by
  rw [arch_goto, nextSlot, slotAddress_succ]
  rfl

end Hart

/-! ## 3. Memory -/

/-- Within the address space the byte `k` places on has the address plus `k`. -/
theorem toNat_add_of_lt {addr : Word} {k : Nat} (fits : addr.toNat + k < 2 ^ 32) :
    (addr + BitVec.ofNat 32 k).toNat = addr.toNat + k := by
  rw [BitVec.toNat_add, BitVec.toNat_ofNat, Nat.add_mod_mod, Nat.mod_eq_of_lt fits]

/-- A narrow value is extended from its own sign. -/
theorem signField_setWidth {bits : Nat} (v : BitVec bits) (le : bits ≤ 32) :
    Word.signField bits (v.setWidth 32) = v.signExtend 32 := by
  rw [Word.signField, BitVec.setWidth_setWidth_of_le _ le, BitVec.setWidth_eq]

theorem loadBytes_eq (o : LoadOp) : Arch.loadBytes o = o.width.bytes := by
  cases o <;> rfl

/-- **A granted load has the architecture's value.** -/
theorem extend_peek (h : Hart) (o : LoadOp) (addr : Word)
    (aligned : addr.toNat % o.width.bytes = 0) :
    o.extend (h.memory.peek o.width addr.toNat) = h.arch.loadResult o addr := by
  have bound := addr.isLt
  have byte (k : Nat) (fits : addr.toNat + k < 2 ^ 32) :
      h.arch.mem (addr + BitVec.ofNat 32 k) = h.memory.byte (addr.toNat + k) := by
    show h.memory.byte (addr + BitVec.ofNat 32 k).toNat = _
    rw [toNat_add_of_lt fits]
  cases o with
  | byte =>
    show Word.signField 8 (h.memory.peek .byte _) = _
    rw [Memory.peek_byte, signField_setWidth _ (by decide)]
    rfl
  | half =>
    have even : addr.toNat % 2 = 0 := aligned
    show Word.signField 16 (h.memory.peek .half _) = _
    rw [Memory.peek_half, signField_setWidth _ (by decide), Arch.loadResult, Arch.half,
      byte 1 (by omega)]
    rfl
  | word =>
    have word : addr.toNat % 4 = 0 := aligned
    show h.memory.peek .word _ = _
    rw [Memory.peek_word, Arch.loadResult, Arch.word, byte 1 (by omega), byte 2 (by omega),
      byte 3 (by omega)]
    rfl
  | byteUnsigned => exact Memory.peek_byte ..
  | halfUnsigned =>
    have even : addr.toNat % 2 = 0 := aligned
    show h.memory.peek .half _ = _
    rw [Memory.peek_half, Arch.loadResult, Arch.half, byte 1 (by omega)]
    rfl

theorem mem_setByte (s : Arch) (addr : Word) (value : Byte) (a : Word) :
    (s.setByte addr value).mem a = if a.toNat = addr.toNat then value else s.mem a := by
  show (if a = addr then value else s.mem a) = _
  simp only [BitVec.toNat_inj]

/-- **The bytes that an aligned store of the architecture writes.** Alignment keeps the last byte
    from wrapping around to address zero. -/
theorem mem_store (s : Arch) (width : Width) (addr value : Word)
    (aligned : addr.toNat % width.bytes = 0) (a : Word) :
    (s.store width addr value).mem a =
      if addr.toNat ≤ a.toNat ∧ a.toNat < addr.toNat + width.bytes then
        value.extractLsb' (8 * (a.toNat - addr.toNat)) 8
      else s.mem a := by
  have bound := addr.isLt
  cases width with
  | byte =>
    rw [Width.bytes, Arch.store, mem_setByte]
    rcases Decidable.em (a.toNat = addr.toNat) with e | out
    · rw [if_pos e, if_pos (by omega), e, Nat.sub_self]
    · rw [if_neg out, if_neg (by omega)]
  | half =>
    have even : addr.toNat % 2 = 0 := aligned
    rw [Width.bytes, Arch.store, mem_setByte, mem_setByte, toNat_add_of_lt (by omega)]
    have : a.toNat = addr.toNat ∨ a.toNat = addr.toNat + 1 ∨
        ¬ (addr.toNat ≤ a.toNat ∧ a.toNat < addr.toNat + 2) := by omega
    rcases this with e | e | out
    · simp [e]
    · simp [e]
    · rw [if_neg (by omega), if_neg (by omega), if_neg out]
  | word =>
    have word : addr.toNat % 4 = 0 := aligned
    rw [Width.bytes, Arch.store, mem_setByte, mem_setByte, mem_setByte, mem_setByte,
      toNat_add_of_lt (by omega), toNat_add_of_lt (by omega), toNat_add_of_lt (by omega)]
    have : a.toNat = addr.toNat ∨ a.toNat = addr.toNat + 1 ∨ a.toNat = addr.toNat + 2 ∨
        a.toNat = addr.toNat + 3 ∨ ¬ (addr.toNat ≤ a.toNat ∧ a.toNat < addr.toNat + 4) := by omega
    rcases this with e | e | e | e | out
    · simp [e]
    · simp [e]
    · simp [e]
    · simp [e]
    · rw [if_neg (by omega), if_neg (by omega), if_neg (by omega), if_neg (by omega), if_neg out]

/-- **A granted store, as the architecture sees it.** -/
theorem arch_store (h : Hart) (width : Width) (addr value : Word)
    (aligned : addr.toNat % width.bytes = 0) (inside : addr.toNat + width.bytes ≤ h.memory.size) :
    (h.apply (.store width addr value)).arch = (h.arch.store width addr value).next := by
  apply Arch.ext
  · cases width <;> rfl
  · funext a
    show (h.memory.poke width addr.toNat value).byte a.toNat = (h.arch.store width addr value).mem a
    rw [mem_store _ _ _ _ aligned, Memory.byte_poke]
    have within : (addr.toNat ≤ a.toNat ∧ a.toNat < addr.toNat + width.bytes ∧
        a.toNat < h.memory.size) ↔
        (addr.toNat ≤ a.toNat ∧ a.toNat < addr.toNat + width.bytes) := by omega
    simp only [within]
    rfl
  · have pc : (h.arch.store width addr value).pc = h.arch.pc := by cases width <;> rfl
    show Hart.slotAddress h.nextSlot = (h.arch.store width addr value).pc + 4
    rw [pc, Hart.nextSlot, Hart.slotAddress_succ]
    rfl

/-! ## 4. Control flow -/

theorem toNat_pc_arch {h : Hart} (slot : h.pc.toNat < 2 ^ 30) :
    h.arch.pc.toNat = 4 * h.pc.toNat := by
  show (h.pc * 4).toNat = _
  rw [BitVec.toNat_mul]
  show h.pc.toNat * 4 % 2 ^ 32 = _
  omega

/-- **A relative jump in slots is one in bytes.** It fails exactly if the byte address would be
    below zero, and otherwise the slot it reaches lies at the byte address. -/
theorem relativeSlot_arch {h : Hart} {offset : Word} (slot : h.pc.toNat < 2 ^ 30)
    (aligned : offset.toInt % 4 = 0) :
    (h.arch.pc.toNat + offset.toInt < 0 ∧
      ∃ target, h.relativeSlot offset = .error (.jumpTarget target)) ∨
    (¬ h.arch.pc.toNat + offset.toInt < 0 ∧
      ∃ next, h.relativeSlot offset = .ok next ∧ Hart.slotAddress next = h.arch.pc + offset) := by
  have four := Hart.four_mul_countedSlot (h := h) aligned
  have pc := toNat_pc_arch slot
  have range := BitVec.toInt_lt (x := offset)
  by_cases neg : h.countedSlot offset < 0
  · exact .inl ⟨by omega, _, Hart.relativeSlot_of_neg neg⟩
  · refine .inr ⟨by omega, _, Hart.relativeSlot_of_nonneg (by omega) (by omega), ?_⟩
    apply BitVec.eq_of_toNat_eq
    have sign := BitVec.toInt_eq_toNat_cond offset
    have low := offset.isLt
    rw [Hart.slotAddress, BitVec.toNat_mul, BitVec.toNat_ofNat, BitVec.toNat_add, pc]
    show _ * 4 % 2 ^ 32 = _
    split at sign <;> omega

theorem registerTarget_arch {h : Hart} (zero : h.reg 0 = 0) (rs1 : Reg) (offset : Word) :
    h.arch.registerTarget rs1 offset = (h.reg rs1 + offset) &&& ~~~1 := by
  rw [and_not_one, Arch.registerTarget, Hart.address_arch zero]

/-- The slot of an aligned address lies at that address. -/
theorem slotAddress_shiftRight {addr : Word} (aligned : addr.toNat % 4 = 0) :
    Hart.slotAddress (addr >>> 2) = addr := by
  apply BitVec.eq_of_toNat_eq
  have bound := addr.isLt
  rw [Hart.slotAddress, BitVec.toNat_mul, BitVec.toNat_ushiftRight, Nat.shiftRight_eq_div_pow]
  show addr.toNat / 4 * 4 % 2 ^ 32 = _
  omega

/-! ## 5. One instruction -/

/-- How the effect of an instruction and the architecture's step agree. -/
inductive Agrees (h : Hart) (i : Instruction) : Prop
  | done (e : Effect) (he : i.effect h = .ok e) (shows : (h.apply e).arch = h.arch.step i)
      (granted : ¬ h.arch.BadAccess h.memory.size i) (lands : ¬ h.arch.BadJump i)
  | refused (fault : AccessFault) (he : i.effect h = .error (.access fault))
      (bad : h.arch.BadAccess h.memory.size i) (lands : ¬ h.arch.BadJump i)
  | lost (target : Int) (he : i.effect h = .error (.jumpTarget target))
      (granted : ¬ h.arch.BadAccess h.memory.size i) (bad : h.arch.BadJump i)

theorem not_badAccess_of_none {s : Arch} {size : Nat} {i : Instruction} (h : s.access? i = none) :
    ¬ s.BadAccess size i := by
  rintro ⟨bytes, addr, access, -⟩
  rw [h] at access
  cases access

theorem badAccess_iff (s : Arch) (size : Nat) {bytes : Nat} {i : Instruction} {addr : Word}
    (h : s.access? i = some (bytes, addr)) :
    s.BadAccess size i ↔ addr.toNat % bytes ≠ 0 ∨ size < addr.toNat + bytes := by
  constructor
  · rintro ⟨_, _, access, bad⟩
    rw [h] at access
    cases access
    exact bad
  · exact fun bad => ⟨bytes, addr, h, bad⟩

section

variable {h : Hart} (zero : h.reg 0 = 0)

include zero

theorem agrees_load (o : LoadOp) (rd rs1 : Reg) (offset : Word) :
    Agrees h (.load o rd rs1 offset) := by
  have addr := Hart.address_arch zero rs1 offset
  have bad := badAccess_iff h.arch h.memory.size (i := .load o rd rs1 offset) rfl
  rw [addr, loadBytes_eq] at bad
  cases hf : h.memory.fault? o.width (h.reg rs1 + offset) with
  | none =>
    obtain ⟨whole, inside⟩ := Memory.fault?_eq_none_iff.mp hf
    refine .done (.write rd (o.extend (h.memory.peek o.width (h.reg rs1 + offset).toNat))
      h.nextSlot) ?_ ?_ ?_ id
    · simp only [Instruction.effect, Memory.load, hf]
    · rw [Hart.arch_write_next, Arch.step, addr, extend_peek h o _ whole]
    · rw [bad]
      omega
  | some fault =>
    refine .refused fault ?_ ?_ id
    · simp only [Instruction.effect, Memory.load, hf]
    · rw [bad]
      have refused := mt Memory.fault?_eq_none_iff.mpr (hf ▸ Option.some_ne_none fault)
      omega

theorem agrees_store (width : Width) (rs1 rs2 : Reg) (offset : Word) :
    Agrees h (.store width rs1 rs2 offset) := by
  have addr := Hart.address_arch zero rs1 offset
  have bad := badAccess_iff h.arch h.memory.size (i := .store width rs1 rs2 offset) rfl
  rw [addr] at bad
  cases hf : h.memory.fault? width (h.reg rs1 + offset) with
  | none =>
    obtain ⟨whole, inside⟩ := Memory.fault?_eq_none_iff.mp hf
    refine .done (.store width (h.reg rs1 + offset) (h.reg rs2)) ?_ ?_ ?_ id
    · simp only [Instruction.effect, hf]
    · rw [arch_store h width _ _ whole inside, Arch.step, addr, Hart.read_arch zero]
    · rw [bad]
      omega
  | some fault =>
    refine .refused fault ?_ ?_ id
    · simp only [Instruction.effect, hf]
    · rw [bad]
      have refused := mt Memory.fault?_eq_none_iff.mpr (hf ▸ Option.some_ne_none fault)
      omega

theorem agrees_branch (slot : h.pc.toNat < 2 ^ 30) (cond : Cond) (rs1 rs2 : Reg) {offset : Word}
    (aligned : offset.toInt % 4 = 0) : Agrees h (.branch cond rs1 rs2 offset) := by
  have taken := holds_iff_taken cond (h.reg rs1) (h.reg rs2)
  have step : h.arch.step (.branch cond rs1 rs2 offset) =
      if cond.holds (h.reg rs1) (h.reg rs2) then h.arch.goto (h.arch.pc + offset)
      else h.arch.next := by
    simp only [Arch.step, Hart.read_arch zero, taken]
  have jumps : h.arch.BadJump (.branch cond rs1 rs2 offset) ↔
      cond.holds (h.reg rs1) (h.reg rs2) = true ∧ h.arch.pc.toNat + offset.toInt < 0 := by
    rw [Arch.BadJump, Hart.read_arch zero, Hart.read_arch zero, taken]
  by_cases holds : cond.holds (h.reg rs1) (h.reg rs2) = true
  · obtain ⟨neg, target, ht⟩ | ⟨nonneg, next, hn, at_next⟩ := relativeSlot_arch slot aligned
    · refine .lost target ?_ (not_badAccess_of_none rfl) (jumps.mpr ⟨holds, neg⟩)
      simp only [Instruction.effect, if_pos holds, ht, Except.map]
    · refine .done (.goto next) ?_ ?_ (not_badAccess_of_none rfl)
        fun bad => nonneg (jumps.mp bad).2
      · simp only [Instruction.effect, if_pos holds, hn, Except.map]
      · rw [Hart.arch_goto, step, if_pos holds, at_next]
  · refine .done (.goto h.nextSlot) ?_ ?_ (not_badAccess_of_none rfl)
      fun bad => holds (jumps.mp bad).1
    · simp only [Instruction.effect, if_neg holds]
    · rw [Hart.arch_goto_next, step, if_neg holds]

omit zero in
theorem agrees_jal (slot : h.pc.toNat < 2 ^ 30) (rd : Reg) {offset : Word}
    (aligned : offset.toInt % 4 = 0) : Agrees h (.jal rd offset) := by
  obtain ⟨neg, target, ht⟩ | ⟨nonneg, next, hn, at_next⟩ := relativeSlot_arch slot aligned
  · refine .lost target ?_ (not_badAccess_of_none rfl) neg
    simp only [Instruction.effect, ht, Except.map]
  · refine .done (.write rd h.linkAddress next) ?_ ?_ (not_badAccess_of_none rfl) nonneg
    · simp only [Instruction.effect, hn, Except.map]
    · rw [Hart.arch_write, at_next, Hart.linkAddress, Hart.nextSlot, Hart.slotAddress_succ]
      rfl

theorem agrees_jalr (rd rs1 : Reg) {offset : Word}
    (aligned : (h.arch.registerTarget rs1 offset).toNat % 4 = 0) :
    Agrees h (.jalr rd rs1 offset) := by
  refine .done _ rfl ?_ (not_badAccess_of_none rfl) id
  have target := registerTarget_arch zero rs1 offset
  rw [target] at aligned
  rw [Hart.arch_write, slotAddress_shiftRight aligned, Hart.linkAddress, Hart.nextSlot,
    Hart.slotAddress_succ, Arch.step, target]
  rfl

/-- **Every instruction agrees with the architecture.** -/
theorem agrees {i : Instruction} (slot : h.pc.toNat < 2 ^ 30) (aligned : h.arch.TargetAligned i) :
    Agrees h i := by
  cases i with
  | op o rd rs1 rs2 =>
    refine .done _ rfl ?_ (not_badAccess_of_none rfl) id
    rw [Hart.arch_write_next, Arch.step, Hart.read_arch zero, Hart.read_arch zero, op_result]
  | opImm o rd rs1 imm =>
    refine .done _ rfl ?_ (not_badAccess_of_none rfl) id
    rw [Hart.arch_write_next, Arch.step, Hart.read_arch zero, imm_result]
  | shiftImm o rd rs1 shamt =>
    refine .done _ rfl ?_ (not_badAccess_of_none rfl) id
    rw [Hart.arch_write_next, Arch.step, Hart.read_arch zero, shift_result]
  | load o rd rs1 offset => exact agrees_load zero o rd rs1 offset
  | store width rs1 rs2 offset => exact agrees_store zero width rs1 rs2 offset
  | branch cond rs1 rs2 offset => exact agrees_branch zero slot cond rs1 rs2 aligned
  | jal rd offset => exact agrees_jal slot rd aligned
  | jalr rd rs1 offset => exact agrees_jalr zero rd rs1 aligned
  | lui rd imm =>
    refine .done _ rfl ?_ (not_badAccess_of_none rfl) id
    rw [Hart.arch_write_next, Arch.step]
  | auipc rd imm =>
    refine .done _ rfl ?_ (not_badAccess_of_none rfl) id
    rw [Hart.arch_write_next, Arch.step]
    rfl
  | halt => exact .done _ rfl rfl (not_badAccess_of_none rfl) id

end

/-! ## 6. Main statement -/

/-- **What it means that an instruction is executed as the architecture says.** -/
structure Refines (h : Hart) (i : Instruction) : Prop where
  /-- Registers, addressable memory and byte program counter are those of the step. -/
  state : ∀ h', i.execute h = .ok h' → h'.arch = h.arch.step i
  zero : ∀ h', i.execute h = .ok h' → h'.reg 0 = 0
  size : ∀ h', i.execute h = .ok h' → h'.memory.size = h.memory.size
  /-- Bytes that no word addresses stay. -/
  beyond : ∀ h', i.execute h = .ok h' →
    ∀ a, 2 ^ 32 ≤ a → h'.memory.byte a = h.memory.byte a
  /-- Nothing but `hlt` changes the halted mark. -/
  halted : ∀ h', i.execute h = .ok h' → i ≠ .halt → h'.halted = h.halted
  /-- `hlt` sets the mark and leaves everything else alone. -/
  halt : i = .halt → i.execute h = .ok { h with halted := true }
  access : (∃ fault, i.execute h = .error (.access fault)) ↔ h.arch.BadAccess h.memory.size i
  jump : (∃ slot, i.execute h = .error (.jumpTarget slot)) ↔ h.arch.BadJump i

theorem execute_eq_ok_iff {i : Instruction} {h h' : Hart} :
    i.execute h = .ok h' ↔ ∃ e, i.effect h = .ok e ∧ h.apply e = h' := by
  unfold Instruction.execute
  cases i.effect h <;> simp [Except.map]

theorem execute_eq_error_iff {i : Instruction} {h : Hart} {fault : Fault} :
    i.execute h = .error fault ↔ i.effect h = .error fault := by
  unfold Instruction.execute
  cases i.effect h <;> simp [Except.map]

/-- **Execution refines the architecture**: on a hart whose register 0 is zero, at a slot whose byte
    address is a word, every instruction with aligned jump targets does what the base instruction
    set says, and fails exactly where that says something is wrong. -/
theorem execute_refines {h : Hart} {i : Instruction} (zero : h.reg 0 = 0)
    (slot : h.pc.toNat < 2 ^ 30) (aligned : h.arch.TargetAligned i) : Refines h i := by
  have fails (fault : Fault) : i.execute h = .error fault ↔ i.effect h = .error fault :=
    execute_eq_error_iff
  refine ⟨fun h' ok => ?_, fun h' ok => ?_, fun h' ok => ?_, fun h' ok a beyond => ?_,
    fun h' ok other => ?_, ?_, ?_, ?_⟩
  · obtain ⟨e, he, rfl⟩ := execute_eq_ok_iff.mp ok
    cases agrees zero slot aligned with
    | done e' he' shows => cases he.symm.trans he'; exact shows
    | refused fault he' => cases he.symm.trans he'
    | lost target he' => cases he.symm.trans he'
  · obtain ⟨e, he, rfl⟩ := execute_eq_ok_iff.mp ok
    exact (Hart.reg_zero_apply h e).trans zero
  · obtain ⟨e, he, rfl⟩ := execute_eq_ok_iff.mp ok
    exact Hart.size_apply h e
  · obtain ⟨e, he, rfl⟩ := execute_eq_ok_iff.mp ok
    exact Hart.byte_apply_beyond he beyond
  · obtain ⟨e, he, rfl⟩ := execute_eq_ok_iff.mp ok
    have running : e ≠ .halt := fun eq => other (Instruction.eq_halt_of_effect (eq ▸ he))
    rw [Hart.halted_apply, decide_eq_false running, Bool.or_false]
  · rintro rfl
    rfl
  · simp only [fails]
    cases agrees zero slot aligned with
    | done e he shows granted lands => simp [he, granted]
    | refused fault he bad => simp [he, bad]
    | lost target he granted => simp [he, granted]
  · simp only [fails]
    cases agrees zero slot aligned with
    | done e he shows granted lands => simp [he, lands]
    | refused fault he bad lands => simp [he, lands]
    | lost target he granted bad => simp [he, bad]

/-- A return through the link register that is linked again: slot 2 of a small hart whose `x1`
    holds byte address 8. -/
theorem execute_refines_linked_return :
    let h : Hart := { (Hart.zero 16).setReg 1 8 with pc := 2 }
    let i : Instruction := .jalr 1 1 4
    h.reg 0 = 0 ∧ h.pc.toNat < 2 ^ 30 ∧ h.arch.TargetAligned i ∧ Refines h i :=
  ⟨rfl, by decide, rfl, execute_refines rfl (by decide) rfl⟩

end Rv32i
