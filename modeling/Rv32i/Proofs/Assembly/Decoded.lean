import Rv32i.Assembly.Decode

/-!
# What decodes, and what it decodes to

* `Record.decode_eq_ok_iff`: a record decodes if its format is that of its mnemonic, every operand
  it has belongs to the format, and the operands the format takes can be read;
* `Instruction.Fits`: the immediates of an instruction lie in the fields of its format;
* `Record.fits_of_decode`: those of a decoded instruction always do;
* `Word.signField_eq_self`: a word in the range of a field is read back from it unchanged.
-/

namespace Rv32i

/-! ## 1. Fields -/

/-- The range of a wider field is wider. -/
theorem Field.bounds_of_le {narrow wide : Nat} (le : narrow ≤ wide) :
    (signed wide).low ≤ (signed narrow).low ∧ (signed narrow).high ≤ (signed wide).high := by
  have power : (2 : Int) ^ (narrow - 1) ≤ 2 ^ (wide - 1) := by
    exact_mod_cast Nat.pow_le_pow_right (by decide : 0 < 2) (Nat.sub_le_sub_right le 1)
  exact ⟨Int.neg_le_neg power, Int.sub_le_sub_right power 1⟩

section

variable {bits : Nat} {w : Word}

theorem Word.toInt_signField (le : bits ≤ 32) :
    (Word.signField bits w).toInt = Int.bmod w.toInt (2 ^ bits) := by
  have divides : (2 ^ bits : Nat) ∣ 2 ^ 32 := Nat.pow_dvd_pow 2 le
  rw [signField, BitVec.toInt_signExtend_of_le le, BitVec.toInt_setWidth,
    BitVec.toInt_eq_toNat_bmod, Int.bmod_bmod_of_dvd divides]

/-- **A word in the range of a field is read back unchanged.** -/
theorem Word.signField_eq_self (positive : 0 < bits) (le : bits ≤ 32)
    (h : (Field.signed bits).admits w.toInt = true) : Word.signField bits w = w := by
  obtain ⟨low, high⟩ := Field.admits_iff.mp h
  obtain ⟨k, rfl⟩ := Nat.exists_eq_add_of_le' positive
  simp only [Field.signed, Nat.add_sub_cancel] at low high
  apply BitVec.eq_of_toInt_eq
  rw [toInt_signField le]
  refine Int.bmod_eq_of_le_mul_two ?_ ?_
  · rw [Nat.pow_succ]
    push_cast
    omega
  · rw [Nat.pow_succ]
    push_cast
    omega

/-- What is read from a field is in its range. -/
theorem Word.admits_signField (le : bits ≤ 32) :
    (Field.signed bits).admits (Word.signField bits w).toInt = true := by
  rw [signField, BitVec.toInt_signExtend_of_le le]
  exact Field.admits_iff.mpr ⟨BitVec.le_toInt _, BitVec.toInt_le⟩

end

/-- A word is even whether it is read with a sign or without. -/
theorem Word.even_iff {w : Word} : w.toNat % 2 = 0 ↔ ¬ w.toInt % 2 = 1 := by
  have value := BitVec.toInt_eq_toNat_cond w
  split at value <;> omega

/-- A word is a shift amount whether it is read with a sign or without. -/
theorem Word.amount_iff {w : Word} : w.toNat < 32 ↔ 0 ≤ w.toInt ∧ w.toInt ≤ 31 := by
  have value := BitVec.toInt_eq_toNat_cond w
  split at value <;> omega

/-- The field of an upper immediate has 20 bits. -/
theorem Word.upper_lt (imm : Word) : (imm >>> 12).toNat < 2 ^ 20 := by
  have := imm.isLt
  rw [BitVec.toNat_ushiftRight, Nat.shiftRight_eq_div_pow]
  omega

/-! ## 2. Formats and operations -/

/-- The format of the mnemonic of an operation. -/
def Operation.format : Operation → Format
  | op _ => .r
  | opImm _ | shiftImm _ => .i
  | load _ => .il
  | store _ => .s
  | branch _ => .sb
  | jal => .uj
  | jalr => .jalr
  | lui | auipc => .u
  | halt => .hlt

theorem Operand.mem_all (operand : Operand) : operand ∈ all := by
  cases operand <;> decide

theorem Operation.format_mnemonic (o : Operation) : o.mnemonic.format = o.format := by
  cases o with
  | op o => cases o <;> rfl
  | opImm o => cases o <;> rfl
  | shiftImm o => cases o <;> rfl
  | load o => cases o <;> rfl
  | store w => cases w <;> rfl
  | branch c => cases c <;> rfl
  | _ => rfl

/-! ## 3. Instructions that fit their fields -/

/-- The immediates of an instruction lie in the fields of its format. Offsets of branches and jumps
    are even, and the low bits of an upper immediate are zero. -/
def Instruction.Fits : Instruction → Prop
  | opImm _ _ _ imm => (Field.signed 12).admits imm.toInt = true
  | load _ _ _ offset | store _ _ _ offset | jalr _ _ offset =>
    (Field.signed 12).admits offset.toInt = true
  | branch _ _ _ offset => (Field.signed 13).admits offset.toInt = true ∧ offset.toNat % 2 = 0
  | jal _ offset => (Field.signed 21).admits offset.toInt = true ∧ offset.toNat % 2 = 0
  | lui _ imm | auipc _ imm => imm.toNat % 2 ^ 12 = 0
  | op .. | shiftImm .. | halt => True

/-! ## 4. Reading the operands -/

theorem eq_ok_of_toOption {ε α : Type} {x : Except ε α} {a : α} (h : x.toOption = some a) :
    x = .ok a := by
  cases x with
  | error e => cases h
  | ok b =>
    cases h
    rfl

/-- The error of a result, if it has one. -/
def errorOf? {ε α : Type} : Except ε α → Option ε
  | .error e => some e
  | .ok _ => none

theorem eq_error_of_errorOf? {ε α : Type} {x : Except ε α} {e : ε} (h : errorOf? x = some e) :
    x = .error e := by
  cases x with
  | error cause =>
    cases h
    rfl
  | ok a => cases h

theorem ok_bind {ε α β : Type} (a : α) (f : α → Except ε β) : (.ok a >>= f) = f a :=
  rfl

theorem bind_eq_ok {ε α β : Type} {x : Except ε α} {f : α → Except ε β} {b : β} :
    (x >>= f) = .ok b ↔ ∃ a, x = .ok a ∧ f a = .ok b := by
  cases x with
  | error e => exact ⟨nofun, nofun⟩
  | ok a => exact ⟨fun h => ⟨a, rfl, h⟩, fun ⟨_, rfl, h⟩ => h⟩

/-- Two reads in a row succeed exactly if both do. -/
theorem read_two_eq_ok {ε α β γ : Type} {x : Except ε α} {y : Except ε β} {k : α → β → γ} {c : γ} :
    (do return k (← x) (← y)) = .ok c ↔ ∃ a b, x = .ok a ∧ y = .ok b ∧ k a b = c := by
  rw [bind_eq_ok]
  constructor
  · rintro ⟨a, hx, h⟩
    obtain ⟨b, hy, h⟩ := bind_eq_ok.mp h
    cases h
    exact ⟨a, b, hx, hy, rfl⟩
  · rintro ⟨a, b, hx, hy, rfl⟩
    exact ⟨a, hx, bind_eq_ok.mpr ⟨b, hy, rfl⟩⟩

/-- Three reads in a row succeed exactly if all of them do. -/
theorem read_three_eq_ok {ε α β γ δ : Type} {x : Except ε α} {y : Except ε β} {z : Except ε γ}
    {k : α → β → γ → δ} {d : δ} :
    (do return k (← x) (← y) (← z)) = .ok d ↔
      ∃ a b c, x = .ok a ∧ y = .ok b ∧ z = .ok c ∧ k a b c = d := by
  rw [bind_eq_ok]
  constructor
  · rintro ⟨a, hx, h⟩
    obtain ⟨b, c, hy, hz, rfl⟩ := read_two_eq_ok.mp h
    exact ⟨a, b, c, hx, hy, hz, rfl⟩
  · rintro ⟨a, b, c, hx, hy, hz, rfl⟩
    exact ⟨a, hx, read_two_eq_ok.mpr ⟨b, c, hy, hz, rfl⟩⟩

namespace Record

/-- A register number that is recorded reads as the register. -/
theorem register_toByte (r : Record) (operand : Operand) (reg : Reg) :
    r.register operand (some reg.toByte) = .ok reg := by
  have value : reg.toByte.toNat = reg.val := by
    rw [Reg.toByte, BitVec.toNat_ofNat]
    omega
  have bound : reg.toByte.toNat < 32 := value ▸ reg.isLt
  rw [register]
  show dite _ _ _ = _
  rw [dif_pos bound]
  congr 1
  exact Fin.ext value

theorem rdReg_of_recorded {r : Record} {rd : Reg} (recorded : r.rd = some rd.toByte) :
    r.rdReg = .ok rd := by
  rw [rdReg, recorded, register_toByte]

theorem rs1Reg_of_recorded {r : Record} {rs1 : Reg} (recorded : r.rs1 = some rs1.toByte) :
    r.rs1Reg = .ok rs1 := by
  rw [rs1Reg, recorded, register_toByte]

theorem rs2Reg_of_recorded {r : Record} {rs2 : Reg} (recorded : r.rs2 = some rs2.toByte) :
    r.rs2Reg = .ok rs2 := by
  rw [rs2Reg, recorded, register_toByte]

theorem signedImm_fits {r : Record} {bits : Nat} {imm : Word} (le : bits ≤ 32)
    (h : r.signedImm bits = .ok imm) : (Field.signed bits).admits imm.toInt = true := by
  obtain ⟨raw, -, eq⟩ := bind_eq_ok.mp h
  cases eq
  exact Word.admits_signField le

theorem evenImm_fits {r : Record} {bits : Nat} {offset : Word} (le : bits ≤ 32)
    (h : r.evenImm bits = .ok offset) :
    (Field.signed bits).admits offset.toInt = true ∧ offset.toNat % 2 = 0 := by
  obtain ⟨read, hr, eq⟩ := bind_eq_ok.mp h
  split at eq
  · rename_i even
    cases eq
    exact ⟨signedImm_fits le hr, even⟩
  · cases eq

theorem upperImm_fits {r : Record} {imm : Word} (h : r.upperImm = .ok imm) :
    imm.toNat % 2 ^ 12 = 0 := by
  obtain ⟨raw, -, eq⟩ := bind_eq_ok.mp h
  cases eq
  rw [BitVec.toNat_shiftLeft, Nat.shiftLeft_eq]
  omega

/-- An immediate in the range of its field is read as it is recorded. -/
theorem signedImm_of_admits {r : Record} {bits : Nat} {imm : Word} (recorded : r.imm = some imm)
    (positive : 0 < bits) (le : bits ≤ 32) (h : (Field.signed bits).admits imm.toInt = true) :
    r.signedImm bits = .ok imm := by
  rw [signedImm, rawImm, recorded]
  exact congrArg Except.ok (Word.signField_eq_self positive le h)

/-- An even offset in the range of its field is read as it is recorded. -/
theorem evenImm_of_admits {r : Record} {bits : Nat} {offset : Word} (recorded : r.imm = some offset)
    (positive : 0 < bits) (le : bits ≤ 32) (h : (Field.signed bits).admits offset.toInt = true)
    (even : offset.toNat % 2 = 0) : r.evenImm bits = .ok offset := by
  rw [evenImm, signedImm_of_admits recorded positive le h, ok_bind, if_pos even]
  rfl

theorem shiftAmount_ofNat {r : Record} {shamt : Nat} (h : shamt < 32)
    (recorded : r.imm = some (BitVec.ofNat 32 shamt)) : r.shiftAmount = .ok ⟨shamt, h⟩ := by
  have value : (BitVec.ofNat 32 shamt).toNat = shamt := by
    rw [BitVec.toNat_ofNat]
    omega
  have bound : (BitVec.ofNat 32 shamt).toNat < 32 := value.symm ▸ h
  rw [shiftAmount, rawImm, recorded]
  show dite _ _ _ = _
  rw [dif_pos bound]
  exact congrArg Except.ok (Fin.ext value)

/-- The field of an upper immediate is shifted back into place. -/
theorem upperImm_of_field {r : Record} {imm : Word} (fits : imm.toNat % 2 ^ 12 = 0)
    (recorded : r.imm = some (BitVec.ofNat 32 (imm >>> 12).toNat)) : r.upperImm = .ok imm := by
  have back : imm >>> 12 <<< 12 = imm := by
    apply BitVec.eq_of_toNat_eq
    rw [BitVec.toNat_shiftLeft, BitVec.toNat_ushiftRight, Nat.shiftLeft_eq,
      Nat.shiftRight_eq_div_pow]
    have := imm.isLt
    omega
  rw [upperImm, rawImm, recorded, BitVec.ofNat_toNat, BitVec.setWidth_eq]
  exact congrArg Except.ok back

/-- **A decoded instruction fits its fields.** -/
theorem fits_of_withOperands {r : Record} {o : Operation} {i : Instruction}
    (h : r.withOperands o = .ok i) : i.Fits := by
  cases o with
  | op o =>
    obtain ⟨rd, rs1, rs2, -, -, -, rfl⟩ := read_three_eq_ok.mp h
    exact trivial
  | opImm o =>
    obtain ⟨rd, rs1, imm, -, -, read, rfl⟩ := read_three_eq_ok.mp h
    exact signedImm_fits (by decide) read
  | shiftImm o =>
    obtain ⟨rd, rs1, shamt, -, -, -, rfl⟩ := read_three_eq_ok.mp h
    exact trivial
  | load o =>
    obtain ⟨rd, rs1, offset, -, -, read, rfl⟩ := read_three_eq_ok.mp h
    exact signedImm_fits (by decide) read
  | store width =>
    obtain ⟨rs1, rs2, offset, -, -, read, rfl⟩ := read_three_eq_ok.mp h
    exact signedImm_fits (by decide) read
  | branch cond =>
    obtain ⟨rs1, rs2, offset, -, -, read, rfl⟩ := read_three_eq_ok.mp h
    exact evenImm_fits (by decide) read
  | jal =>
    obtain ⟨rd, offset, -, read, rfl⟩ := read_two_eq_ok.mp h
    exact evenImm_fits (by decide) read
  | jalr =>
    obtain ⟨rd, rs1, offset, -, -, read, rfl⟩ := read_three_eq_ok.mp h
    exact signedImm_fits (by decide) read
  | lui =>
    obtain ⟨rd, imm, -, read, rfl⟩ := read_two_eq_ok.mp h
    exact upperImm_fits read
  | auipc =>
    obtain ⟨rd, imm, -, read, rfl⟩ := read_two_eq_ok.mp h
    exact upperImm_fits read
  | halt =>
    cases h
    exact trivial

/-! ## 5. Decoding -/

theorem checkShape_eq_ok_iff {r : Record} :
    r.checkShape = .ok () ↔ r.format = r.opcode.format ∧
      ∀ operand, r.has operand = true → r.opcode.format.takes operand = true := by
  have foreign : r.foreignOperand? = none ↔
      ∀ operand, r.has operand = true → r.opcode.format.takes operand = true := by
    rw [foreignOperand?, List.find?_eq_none]
    constructor
    · intro h operand has
      have own := h operand operand.mem_all
      rw [has] at own
      simpa using own
    · intro h operand _ both
      obtain ⟨has, lacks⟩ := Bool.and_eq_true_iff.mp both
      rw [h operand has] at lacks
      cases lacks
  by_cases hf : r.format = r.opcode.format
  · rw [checkShape, if_neg (not_not_intro hf), ← foreign]
    cases r.foreignOperand? with
    | none => exact ⟨fun _ => ⟨hf, rfl⟩, fun _ => rfl⟩
    | some operand => exact ⟨nofun, nofun⟩
  · rw [checkShape, if_pos hf]
    exact ⟨nofun, fun h => absurd h.1 hf⟩

/-- A record decodes exactly if its shape is right and its operands can be read. -/
theorem decode_eq_ok_iff {r : Record} {i : Instruction} :
    r.decode = .ok i ↔
      (r.format = r.opcode.format ∧
        ∀ operand, r.has operand = true → r.opcode.format.takes operand = true) ∧
      r.withOperands r.opcode.operation = .ok i := by
  have plain : r.decode = .ok i ↔ r.toInstruction = .ok i := by
    rw [decode]
    cases r.toInstruction with
    | error fault => exact ⟨nofun, nofun⟩
    | ok j => exact ⟨fun h => by cases h; rfl, fun h => by cases h; rfl⟩
  rw [plain, toInstruction, bind_eq_ok, ← checkShape_eq_ok_iff]
  constructor
  · rintro ⟨_, shape, h⟩
    exact ⟨shape, h⟩
  · rintro ⟨shape, h⟩
    exact ⟨(), shape, h⟩

/-- A record with the operands of an instruction decodes to it. -/
theorem decode_of_operands {r : Record} {i : Instruction} (opcode : r.opcode = i.mnemonic)
    (format : r.format = i.mnemonic.format)
    (own : (Operand.all.all fun operand =>
      !r.has operand || i.operation.format.takes operand) = true)
    (read : r.withOperands i.operation = .ok i) : r.decode = .ok i := by
  refine decode_eq_ok_iff.mpr ⟨⟨?_, fun operand has => ?_⟩, ?_⟩
  · rw [format, opcode]
  · have taken := List.all_eq_true.mp own operand operand.mem_all
    rw [has] at taken
    rw [opcode, Instruction.mnemonic, Operation.format_mnemonic]
    exact taken
  · rw [opcode, Instruction.mnemonic, Operation.operation_mnemonic]
    exact read

/-- **The immediates of a decoded instruction lie in their fields.** -/
theorem fits_of_decode {r : Record} {i : Instruction} (h : r.decode = .ok i) : i.Fits :=
  fits_of_withOperands (decode_eq_ok_iff.mp h).2

end Record

end Rv32i
