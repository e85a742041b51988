import Rv32i.Proofs.Assembly.WellFormed

/-!
# The rules of decoding

A record from outside may have any operands with any values. Here the rules that decoding checks
are listed in their order, each with the faults that break it, without saying how they are checked.

* `Word.Folds`: the value of a field that stands for a word, which is the only one in the range of
  the field with the same low bits; `Word.folds_signField` says that it is read;
* `Record.Breaks`: the record breaks a rule, with a fault, and `Record.FirstBroken`: the fault is
  that of the first rule broken;
* `Record.Asks`: a computation fails with the fault of the first of some rules that is broken, and
  only then. One after the other, computations ask for the rules of the one and then for those of
  the other (`Asks.bind`).

`Record.decode_eq_error_iff` says that decoding asks for all the rules and for nothing else.
-/

namespace Rv32i

/-! ## 1. Folded immediates -/

/-- **The value of a signed field that stands for a word**: of the values that the field admits, the
    one that agrees with the word in the bits of the field. -/
def Word.Folds (bits : Nat) (raw value : Word) : Prop :=
  ∀ z : Int, ((Field.signed bits).admits z = true ∧ z % 2 ^ bits = raw.toInt % 2 ^ bits) ↔
    z = value.toInt

section

variable {bits : Nat} {raw value : Word}

/-- **What is read from a field stands for the word.** -/
theorem Word.folds_signField (positive : 0 < bits) (le : bits ≤ 32) :
    Folds bits raw (signField bits raw) := by
  intro z
  have modulus : (2 : Int) ^ bits = ((2 ^ bits : Nat) : Int) := (Int.natCast_pow 2 bits).symm
  constructor
  · intro ⟨admits, congruent⟩
    obtain ⟨low, high⟩ := Field.admits_iff.mp admits
    obtain ⟨k, rfl⟩ := Nat.exists_eq_add_of_le' positive
    simp only [Field.signed, Nat.add_sub_cancel] at low high
    have own : Int.bmod z (2 ^ (k + 1)) = z := by
      refine Int.bmod_eq_of_le_mul_two ?_ ?_
      · rw [Nat.pow_succ]
        push_cast
        omega
      · rw [Nat.pow_succ]
        push_cast
        omega
    rw [modulus] at congruent
    rw [toInt_signField le, ← own, ← Int.emod_bmod, congruent, Int.emod_bmod]
  · intro e
    subst e
    refine ⟨admits_signField le, ?_⟩
    rw [toInt_signField le, modulus, Int.bmod_emod]

/-- A word that the field admits stands for itself. -/
theorem Word.folds_self (positive : 0 < bits) (le : bits ≤ 32)
    (h : (Field.signed bits).admits raw.toInt = true) : Folds bits raw raw := by
  have folds : Folds bits raw (signField bits raw) := folds_signField positive le
  rwa [signField_eq_self positive le h] at folds

/-- Folding keeps the lowest bit. -/
theorem Word.Folds.parity (folds : Folds bits raw value) (positive : 0 < bits) :
    value.toInt % 2 = raw.toInt % 2 := by
  obtain ⟨-, congruent⟩ := (folds value.toInt).mpr rfl
  obtain ⟨k, rfl⟩ := Nat.exists_eq_add_of_le' positive
  have divides : (2 : Int) ∣ 2 ^ (k + 1) := Int.pow_succ 2 k ▸ Int.dvd_mul_left ..
  rw [← Int.emod_emod_of_dvd _ divides, congruent, Int.emod_emod_of_dvd _ divides]

/-- A word stands for one value only. -/
theorem Word.Folds.unique {other : Word} (folds : Folds bits raw value)
    (again : Folds bits raw other) : other = value :=
  BitVec.eq_of_toInt_eq ((folds other.toInt).mp ((again other.toInt).mpr rfl))

end

/-! ## 2. The rules -/

/-- What decoding checks of a record. -/
inductive DecodeRule
  /-- The format is that of the mnemonic. -/
  | format
  /-- The operand is only there if the format takes it. -/
  | foreign (operand : Operand)
  /-- The operand is there if the format takes it, and has a value that can be read. -/
  | operand (operand : Operand)
deriving DecidableEq

/-- **The rules in the order in which they are checked.** -/
def DecodeRule.all : List DecodeRule :=
  [.format, .foreign .rd, .foreign .rs1, .foreign .rs2, .foreign .imm, .foreign .label,
    .operand .rd, .operand .rs1, .operand .rs2, .operand .imm]

namespace Record

/-- No instruction of the mnemonic can have the immediate, and the fault says why. -/
inductive Unreadable (r : Record) (imm : Word) : DecodeFault → Prop
  | amount (shifts : r.opcode ∈ [Mnemonic.slli, .srli, .srai])
      (outside : ¬ (0 ≤ imm.toInt ∧ imm.toInt ≤ 31)) : Unreadable r imm (.shiftOutOfRange imm)
  | odd {bits : Nat} {offset : Word} (jumps : r.opcode.format = .sb ∨ r.opcode.format = .uj)
      (field : r.opcode.format.field? = some (.signed bits)) (folds : Word.Folds bits imm offset)
      (odd : imm.toInt % 2 = 1) : Unreadable r imm (.misalignedOffset r.opcode offset)

/-- **The record breaks a rule**, and the fault says how. -/
inductive Breaks (r : Record) : DecodeRule → DecodeFault → Prop
  | format (mismatch : r.format ≠ r.opcode.format) :
    Breaks r .format (.formatMismatch r.opcode r.format)
  | foreign {operand : Operand} (present : r.has operand = true)
      (lacks : r.opcode.format.takes operand = false) :
    Breaks r (.foreign operand) (.unexpectedField r.opcode operand)
  | missing {operand : Operand} (takes : r.opcode.format.takes operand = true)
      (absent : r.has operand = false) :
    Breaks r (.operand operand) (.missingField r.opcode operand)
  | register {operand : Operand} {index : Byte} (takes : r.opcode.format.takes operand = true)
      (recorded : r.registerAt operand = some index) (large : 31 < index.toNat) :
    Breaks r (.operand operand) (.registerOutOfRange index)
  | immediate {imm : Word} {fault : DecodeFault} (recorded : r.imm = some imm)
      (unreadable : r.Unreadable imm fault) : Breaks r (.operand .imm) fault

/-- The fault is that of the first rule that the record breaks. -/
def FirstBroken (r : Record) (fault : DecodeFault) : List DecodeRule → Prop
  | [] => False
  | rule :: rules => r.Breaks rule fault ∨ (∀ f, ¬ r.Breaks rule f) ∧ r.FirstBroken fault rules

/-! ## 3. Rules in a row -/

theorem firstBroken_append {r : Record} {fault : DecodeFault} {rules later : List DecodeRule} :
    r.FirstBroken fault (rules ++ later) ↔ r.FirstBroken fault rules ∨
      (∀ rule ∈ rules, ∀ f, ¬ r.Breaks rule f) ∧ r.FirstBroken fault later := by
  induction rules with
  | nil => simp [FirstBroken]
  | cons rule rules ih =>
    rw [List.cons_append, FirstBroken, FirstBroken, ih, List.forall_mem_cons]
    simp only [and_or_left, or_assoc, and_assoc]

/-- Some rule is broken exactly if some rule is the first. -/
theorem exists_firstBroken_iff {r : Record} {rules : List DecodeRule} :
    (∃ fault, r.FirstBroken fault rules) ↔ ∃ rule ∈ rules, ∃ f, r.Breaks rule f := by
  induction rules with
  | nil => simp [FirstBroken]
  | cons rule rules ih =>
    by_cases broken : ∃ f, r.Breaks rule f
    · obtain ⟨f, breaks⟩ := broken
      exact ⟨fun _ => ⟨rule, List.mem_cons_self, f, breaks⟩, fun _ => ⟨f, .inl breaks⟩⟩
    · have kept : ∀ f, ¬ r.Breaks rule f := not_exists.mp broken
      simp [FirstBroken, kept, ih]

/-- **A computation asks for rules**: it fails exactly with the fault of the first one broken. -/
def Asks {α : Type} (r : Record) (rules : List DecodeRule) (x : Except DecodeFault α) : Prop :=
  ∀ fault, x = .error fault ↔ r.FirstBroken fault rules

namespace Asks

variable {r : Record} {α β : Type} {rules later : List DecodeRule} {rule : DecodeRule}
  {x : Except DecodeFault α} {f : α → Except DecodeFault β}

/-- What comes to a value without a check asks for nothing. -/
theorem value (a : α) : r.Asks [] (.ok a : Except DecodeFault α) :=
  fun _ => ⟨nofun, nofun⟩

/-- A single check. -/
theorem single (h : ∀ fault, x = .error fault ↔ r.Breaks rule fault) : r.Asks [rule] x := by
  intro fault
  simp [h fault, FirstBroken]

theorem not_breaks (asks : r.Asks rules x) {a : α} (done : x = .ok a) :
    ∀ rule ∈ rules, ∀ fault, ¬ r.Breaks rule fault := by
  intro rule mem fault breaks
  obtain ⟨first, broken⟩ := exists_firstBroken_iff.mpr ⟨rule, mem, fault, breaks⟩
  cases done.symm.trans ((asks first).mpr broken)

/-- **One after the other**: the rules of the first come first. -/
theorem bind (first : r.Asks rules x) (next : ∀ a, x = .ok a → r.Asks later (f a)) :
    r.Asks (rules ++ later) (x >>= f) := by
  intro fault
  rw [firstBroken_append, ← first fault]
  cases result : x with
  | error cause =>
    have broken : ¬ ∀ rule ∈ rules, ∀ f, ¬ r.Breaks rule f := fun kept => by
      obtain ⟨rule, mem, f, breaks⟩ := exists_firstBroken_iff.mp ⟨cause, (first cause).mp result⟩
      exact kept rule mem f breaks
    show (.error cause : Except DecodeFault β) = .error fault ↔ _
    rw [or_iff_left (fun ⟨kept, _⟩ => broken kept), Except.error.injEq, Except.error.injEq]
  | ok a =>
    have kept := first.not_breaks result
    rw [ok_bind, next a result fault, or_iff_right nofun, and_iff_right kept]

/-- A check, and then what is left. -/
theorem next (first : r.Asks [rule] x) (rest : ∀ a, r.Asks later (f a)) :
    r.Asks (rule :: later) (x >>= f) :=
  first.bind fun a _ => rest a

/-- A rule that cannot be broken need not be checked. -/
theorem skip (kept : ∀ fault, ¬ r.Breaks rule fault) (asks : r.Asks rules x) :
    r.Asks (rule :: rules) x := by
  intro fault
  rw [asks fault, FirstBroken, or_iff_right (kept fault), and_iff_right kept]

/-- A fault that breaks the first rule, if no other does, is the end. -/
theorem stop {fault : DecodeFault} (breaks : r.Breaks rule fault)
    (only : ∀ f, r.Breaks rule f → f = fault) :
    r.Asks (rule :: rules) (.error fault : Except DecodeFault α) := by
  intro f
  rw [FirstBroken, or_iff_left fun ⟨kept, _⟩ => kept fault breaks]
  constructor
  · intro fails
    cases fails
    exact breaks
  · intro other
    rw [only f other]

/-- What is made of a value asks for nothing more. -/
theorem map (asks : r.Asks rules x) (g : α → β) : r.Asks rules (do return g (← x)) := by
  have both := asks.bind fun a _ => value (g a)
  rwa [List.append_nil] at both

end Asks

/-! ## 4. What each check asks for -/

section

variable {r : Record}

theorem shifts_iff {m : Mnemonic} :
    m ∈ [Mnemonic.slli, .srli, .srai] ↔ ∃ op, m.operation = .shiftImm op := by
  cases m <;> simp [Mnemonic.operation]

/-- Only formats with an immediate can have one that is unreadable. -/
theorem Unreadable.takes {imm : Word} {fault : DecodeFault} (h : r.Unreadable imm fault) :
    r.opcode.format.takes .imm = true := by
  cases h with
  | amount shifts =>
    obtain ⟨op, operation⟩ := shifts_iff.mp shifts
    rw [← r.opcode.mnemonic_operation, Operation.format_mnemonic, operation]
    rfl
  | odd _ field =>
    rw [Format.takes_imm, field]
    rfl

/-- An operand that the format does not take is not asked for. -/
theorem not_breaks_operand {operand : Operand} (lacks : r.opcode.format.takes operand = false)
    (fault : DecodeFault) : ¬ r.Breaks (.operand operand) fault := by
  intro breaks
  cases breaks with
  | missing takes => cases lacks.symm.trans takes
  | register takes => cases lacks.symm.trans takes
  | immediate _ unreadable => cases lacks.symm.trans unreadable.takes

/-- **A register asks for its rule**: that it is there and in range. -/
theorem asks_register {operand : Operand} (isRegister : operand ∈ [Operand.rd, .rs1, .rs2])
    (takes : r.opcode.format.takes operand = true) :
    r.Asks [.operand operand] (r.register operand (r.registerAt operand)) := by
  have notImm : operand ≠ .imm := fun e => by simp [e] at isRegister
  have has := r.has_register isRegister
  refine .single fun fault => ?_
  cases recorded : r.registerAt operand with
  | none =>
    rw [recorded] at has
    constructor
    · intro fails
      cases fails
      exact .missing takes has
    · intro breaks
      cases breaks with
      | missing => rfl
      | register _ present => cases recorded.symm.trans present
      | immediate => exact absurd rfl notImm
  | some index =>
    rw [recorded] at has
    show dite _ _ _ = _ ↔ _
    by_cases small : index.toNat < 32
    · rw [dif_pos small]
      refine ⟨nofun, fun breaks => ?_⟩
      cases breaks with
      | missing _ absent => cases has.symm.trans absent
      | register _ present large =>
        cases recorded.symm.trans present
        omega
      | immediate => exact absurd rfl notImm
    · rw [dif_neg small]
      constructor
      · intro fails
        cases fails
        exact .register takes recorded (by omega)
      · intro breaks
        cases breaks with
        | missing _ absent => cases has.symm.trans absent
        | register _ present =>
          cases recorded.symm.trans present
          rfl
        | immediate => exact absurd rfl notImm

/-- **An immediate asks for its rule**: that it is there, and that what is made of it refuses
    exactly the unreadable ones. -/
theorem asks_rawImm {α : Type} {f : Word → Except DecodeFault α}
    (takes : r.opcode.format.takes .imm = true)
    (reads : ∀ imm fault, f imm = .error fault ↔ r.Unreadable imm fault) :
    r.Asks [.operand .imm] (r.rawImm >>= f) := by
  refine .single fun fault => ?_
  rw [rawImm]
  cases recorded : r.imm with
  | none =>
    constructor
    · intro fails
      cases fails
      exact .missing takes (congrArg Option.isSome recorded)
    · intro breaks
      cases breaks with
      | missing => rfl
      | register _ present => cases present
      | immediate present => cases recorded.symm.trans present
  | some imm =>
    show f imm = _ ↔ _
    rw [reads]
    refine ⟨.immediate recorded, fun breaks => ?_⟩
    cases breaks with
    | missing _ absent => cases (congrArg Option.isSome recorded).symm.trans absent
    | register _ present => cases present
    | immediate present unreadable =>
      cases recorded.symm.trans present
      exact unreadable

end

/-! ## 5. What each operation asks for -/

section

variable {r : Record} {o : Operation} (operation : r.opcode.operation = o)

include operation

theorem format_of_operation : r.opcode.format = o.format := by
  rw [← operation, ← Operation.format_mnemonic, Mnemonic.mnemonic_operation]

theorem not_breaks_of_lacks {operand : Operand} (lacks : o.format.takes operand = false) :
    ∀ fault, ¬ r.Breaks (.operand operand) fault :=
  not_breaks_operand (format_of_operation operation ▸ lacks)

theorem asks_rd (takes : o.format.takes .rd = true) : r.Asks [.operand .rd] r.rdReg :=
  asks_register (by decide) (format_of_operation operation ▸ takes)

theorem asks_rs1 (takes : o.format.takes .rs1 = true) : r.Asks [.operand .rs1] r.rs1Reg :=
  asks_register (by decide) (format_of_operation operation ▸ takes)

theorem asks_rs2 (takes : o.format.takes .rs2 = true) : r.Asks [.operand .rs2] r.rs2Reg :=
  asks_register (by decide) (format_of_operation operation ▸ takes)

/-- The immediates that a shift cannot have are those that are no shift amount. -/
theorem unreadable_iff_of_shift {op : ShiftOp} (shift : o = .shiftImm op) {imm : Word}
    {fault : DecodeFault} :
    r.Unreadable imm fault ↔ ¬ imm.toNat < 32 ∧ fault = .shiftOutOfRange imm := by
  have format := format_of_operation operation
  subst shift
  constructor
  · intro unreadable
    cases unreadable with
    | amount _ outside => exact ⟨fun small => outside (Word.amount_iff.mp small), rfl⟩
    | odd jumps =>
      rw [format] at jumps
      exact jumps.elim nofun nofun
  · intro ⟨large, same⟩
    subst same
    exact .amount (shifts_iff.mpr ⟨op, operation⟩) fun inside => large (Word.amount_iff.mpr inside)

/-- The immediates that a branch or a jump cannot have are the odd ones, folded or not. -/
theorem unreadable_iff_of_jump {bits : Nat} (field : o.format.field? = some (.signed bits))
    (width : 0 < bits ∧ bits ≤ 32) (jumps : o.format = .sb ∨ o.format = .uj) {imm : Word}
    {fault : DecodeFault} :
    r.Unreadable imm fault ↔ ¬ (Word.signField bits imm).toNat % 2 = 0 ∧
      fault = .misalignedOffset r.opcode (Word.signField bits imm) := by
  have format := format_of_operation operation
  have folds : Word.Folds bits imm (Word.signField bits imm) :=
    Word.folds_signField width.1 width.2
  have parity := folds.parity width.1
  constructor
  · intro unreadable
    cases unreadable with
    | amount shifts =>
      obtain ⟨op, shift⟩ := shifts_iff.mp shifts
      cases operation.symm.trans shift
      exact jumps.elim nofun nofun
    | odd _ other again odd =>
      rw [format, field] at other
      cases congrArg Field.bits (Option.some.inj other)
      rw [folds.unique again]
      exact ⟨fun even => Word.even_iff.mp even (parity.trans odd), rfl⟩
  · intro ⟨notEven, same⟩
    subst same
    have odd := Decidable.not_not.mp (mt Word.even_iff.mpr notEven)
    exact .odd (format ▸ jumps) (format ▸ field) folds (parity.symm.trans odd)

/-- An operation that is no shift, branch or jump can have any immediate. -/
theorem not_unreadable (noShift : ∀ op, o ≠ .shiftImm op) (noBranch : o.format ≠ .sb)
    (noJump : o.format ≠ .uj) (imm : Word) (fault : DecodeFault) : ¬ r.Unreadable imm fault := by
  intro unreadable
  cases unreadable with
  | amount shifts =>
    obtain ⟨op, shift⟩ := shifts_iff.mp shifts
    exact noShift op (operation.symm.trans shift)
  | odd jumps =>
    rw [format_of_operation operation] at jumps
    exact jumps.elim noBranch noJump

theorem asks_anyImm (g : Word → Word) (takes : o.format.takes .imm = true)
    (noShift : ∀ op, o ≠ .shiftImm op) (noBranch : o.format ≠ .sb) (noJump : o.format ≠ .uj) :
    r.Asks [.operand .imm] (do return g (← r.rawImm)) :=
  asks_rawImm (format_of_operation operation ▸ takes) fun imm fault =>
    ⟨nofun, fun h => absurd h (not_unreadable operation noShift noBranch noJump imm fault)⟩

theorem asks_shiftAmount {op : ShiftOp} (shift : o = .shiftImm op) :
    r.Asks [.operand .imm] r.shiftAmount := by
  have takes : r.opcode.format.takes .imm = true := by
    rw [format_of_operation operation, shift]
    rfl
  refine asks_rawImm takes fun imm fault => ?_
  rw [unreadable_iff_of_shift operation shift]
  by_cases small : imm.toNat < 32
  · rw [dif_pos small]
    exact ⟨nofun, fun ⟨large, _⟩ => absurd small large⟩
  · rw [dif_neg small, Except.error.injEq, and_iff_right small, eq_comm]

theorem asks_evenImm {bits : Nat} (field : o.format.field? = some (.signed bits))
    (width : 0 < bits ∧ bits ≤ 32) (jumps : o.format = .sb ∨ o.format = .uj) :
    r.Asks [.operand .imm] (r.evenImm bits) := by
  have takes : r.opcode.format.takes .imm = true := by
    rw [Format.takes_imm, format_of_operation operation, field]
    rfl
  have unfolded : r.evenImm bits = r.rawImm >>= fun imm =>
      if (Word.signField bits imm).toNat % 2 = 0 then .ok (Word.signField bits imm)
      else .error (.misalignedOffset r.opcode (Word.signField bits imm)) := by
    rw [evenImm, signedImm]
    cases r.rawImm <;> rfl
  rw [unfolded]
  refine asks_rawImm takes fun imm fault => ?_
  rw [unreadable_iff_of_jump operation field width jumps]
  by_cases even : (Word.signField bits imm).toNat % 2 = 0
  · rw [if_pos even]
    refine ⟨fun fails => ?_, fun breaks => absurd even breaks.1⟩
    cases fails
  · rw [if_neg even, Except.error.injEq, and_iff_right even, eq_comm]

end

/-- **The operands are asked for in their order**, whatever the operation. -/
theorem asks_withOperands {r : Record} {o : Operation} (operation : r.opcode.operation = o) :
    r.Asks [.operand .rd, .operand .rs1, .operand .rs2, .operand .imm] (r.withOperands o) := by
  have rd := asks_rd operation
  have rs1 := asks_rs1 operation
  have rs2 := asks_rs2 operation
  have lacks {operand : Operand} (lacks : o.format.takes operand = false) :=
    not_breaks_of_lacks operation lacks
  have anyImm (g : Word → Word) := asks_anyImm operation g
  cases o with
  | op op =>
    exact (rd rfl).next fun _ => (rs1 rfl).next fun _ => (rs2 rfl).next fun _ =>
      (Asks.value _).skip (lacks rfl)
  | opImm op =>
    exact (rd rfl).next fun _ => (rs1 rfl).next fun _ =>
      ((anyImm (Word.signField 12) rfl nofun nofun nofun).map _).skip (lacks rfl)
  | shiftImm op =>
    exact (rd rfl).next fun _ => (rs1 rfl).next fun _ =>
      ((asks_shiftAmount operation rfl).map _).skip (lacks rfl)
  | load op =>
    exact (rd rfl).next fun _ => (rs1 rfl).next fun _ =>
      ((anyImm (Word.signField 12) rfl nofun nofun nofun).map _).skip (lacks rfl)
  | store width =>
    exact ((rs1 rfl).next fun _ => (rs2 rfl).next fun _ =>
      (anyImm (Word.signField 12) rfl nofun nofun nofun).map _).skip (lacks rfl)
  | branch cond =>
    exact ((rs1 rfl).next fun _ => (rs2 rfl).next fun _ =>
      (asks_evenImm operation rfl (by decide) (.inl rfl)).map _).skip (lacks rfl)
  | jal =>
    have offset := asks_evenImm operation rfl (by decide) (.inr rfl)
    exact (rd rfl).next fun _ => ((offset.map _).skip (lacks rfl)).skip (lacks rfl)
  | jalr =>
    exact (rd rfl).next fun _ => (rs1 rfl).next fun _ =>
      ((anyImm (Word.signField 12) rfl nofun nofun nofun).map _).skip (lacks rfl)
  | lui =>
    exact (rd rfl).next fun _ =>
      (((anyImm (· <<< 12) rfl nofun nofun nofun).map _).skip (lacks rfl)).skip (lacks rfl)
  | auipc =>
    exact (rd rfl).next fun _ =>
      (((anyImm (· <<< 12) rfl nofun nofun nofun).map _).skip (lacks rfl)).skip (lacks rfl)
  | halt =>
    exact ((((Asks.value _).skip (lacks rfl)).skip (lacks rfl)).skip (lacks rfl)).skip (lacks rfl)

/-! ## 6. What decoding asks for -/

section

variable {r : Record}

/-- Operands are compared with the format one after the other. -/
theorem asks_foreign (operands : List Operand) :
    r.Asks (operands.map .foreign)
      (match operands.find? fun operand => r.has operand && !r.opcode.format.takes operand with
        | some operand => .error (.unexpectedField r.opcode operand)
        | none => .ok ()) := by
  induction operands with
  | nil => exact .value ()
  | cons operand operands ih =>
    rw [List.map_cons, List.find?_cons]
    cases own : r.has operand && !r.opcode.format.takes operand with
    | false =>
      refine ih.skip fun fault breaks => ?_
      cases breaks with
      | foreign present lacks =>
        rw [present, lacks] at own
        cases own
    | true =>
      rw [Bool.and_eq_true, Bool.not_eq_true'] at own
      refine .stop (.foreign own.1 own.2) fun f breaks => ?_
      cases breaks
      rfl

theorem asks_checkShape : r.Asks (.format :: Operand.all.map .foreign) r.checkShape := by
  rw [checkShape]
  split
  · rename_i mismatch
    refine .stop (.format mismatch) fun f breaks => ?_
    cases breaks
    rfl
  · rename_i same
    refine (asks_foreign Operand.all).skip fun fault breaks => ?_
    cases breaks with
    | format mismatch => exact same mismatch

/-- **Decoding asks for all the rules**, in their order. -/
theorem asks_toInstruction : r.Asks DecodeRule.all r.toInstruction :=
  asks_checkShape.bind fun _ _ => asks_withOperands rfl

theorem decode_eq_error_iff {error : DecodeError} :
    r.decode = .error error ↔ error.line = r.line ∧ r.FirstBroken error.fault DecodeRule.all := by
  rw [← asks_toInstruction error.fault, decode]
  cases r.toInstruction with
  | error fault =>
    rcases error with ⟨line, cause⟩
    show Except.error (DecodeError.mk r.line fault) = _ ↔ _
    simp only [Except.error.injEq, DecodeError.mk.injEq, eq_comm]
  | ok i =>
    constructor
    · intro fails
      cases fails
    · intro fails
      cases fails.2

end

end Record

end Rv32i
