import Rv32i.Assembly.Statement
import Rv32i.Proofs.Assembly.Decoded
import Rv32i.Proofs.Checked.Abort
import Rv32i.Proofs.Text.Cutting

/-!
# Statements with byte offsets and machine integers

* `Checked.literal?_eq`: the magnitude of a literal is in range, so it can be negated;
* `Checked.bracketed?_eq`: an address is cut in front of and behind a parenthesis, which takes one
  byte;
* `Checked.target_eq`: the distance to a label is in range if the slots of a program are few enough
  (`maxSlots`);
* `assembleStatement_eq`: assembling a statement never aborts.
-/

namespace Rv32i.Checked

open Text

/-! ## 1. Fields and literals -/

/-- The two's complement field of a width, with bounds of 64 bits. -/
def signedField (bits : Nat) : Except Abort Field := do
  let low ← integer 64 (-(← powerOfTwo (← unsigned 32 ((bits : Int) - 1))))
  let high ← integer 64 ((← powerOfTwo (← unsigned 32 ((bits : Int) - 1))) - 1)
  return ⟨bits, low, high⟩

/-- The field of an upper immediate, with bounds of 64 bits. -/
def upperField : Except Abort Field := do
  let low ← integer 64 (-(← powerOfTwo 19))
  let high ← integer 64 ((← powerOfTwo 20) - 1)
  return ⟨20, low, high⟩

/-- The integer that a text writes. The sign is cut off as one byte. -/
def literal? (text : List Char) : Except Abort (Option Int) :=
  match trim text with
  | '-' :: body => do
    match boundedMagnitude? (← sliceFrom ('-' :: body) 1) with
    | some n => return some (← integer 64 (-(n : Int)))
    | none => return none
  | '+' :: body => do
    return (boundedMagnitude? (← sliceFrom ('+' :: body) 1)).map fun n : Nat => (n : Int)
  | body => return (boundedMagnitude? body).map fun n : Nat => (n : Int)

theorem signedField_eq {bits : Nat} (positive : 1 ≤ bits) (le : bits ≤ 32) :
    signedField bits = .ok (.signed bits) := by
  have last : unsigned 32 ((bits : Int) - 1) = .ok (bits - 1) := unsigned_pred positive (by omega)
  have power : powerOfTwo (bits - 1) = .ok (2 ^ (bits - 1)) := powerOfTwo_of_lt (by omega)
  have small : 2 ^ (bits - 1) ≤ 2 ^ 31 := Nat.pow_le_pow_right (by decide) (by omega)
  have positive := Nat.two_pow_pos (bits - 1)
  have cast : (2 ^ (bits - 1) : Int) = (2 ^ (bits - 1) : Nat) := by norm_cast
  have low : integer 64 (-2 ^ (bits - 1)) = .ok (-2 ^ (bits - 1)) :=
    integer_of_mem (by omega) (by omega)
  have high : integer 64 (2 ^ (bits - 1) - 1) = .ok (2 ^ (bits - 1) - 1) :=
    integer_of_mem (by omega) (by omega)
  simp only [signedField, last, power, ok_bind, low, high]
  rfl

theorem upperField_eq : upperField = .ok .upper :=
  rfl

/-- A sign takes one byte. -/
theorem sliceFrom_sign {sign : Char} (byte : sign.utf8Size = 1) (body : List Char) :
    sliceFrom (sign :: body) 1 = .ok body := by
  have whole := sliceFrom_append [sign] body
  rwa [byteLength_cons, byte] at whole

theorem le_of_boundedMagnitude? {cs : List Char} {n : Nat} (h : boundedMagnitude? cs = some n) :
    n ≤ maxMagnitude := by
  obtain ⟨-, le⟩ := Option.filter_eq_some_iff.mp h
  exact of_decide_eq_true le

/-- A magnitude is negated in 64 bits. -/
theorem negated_magnitude {cs : List Char} {n : Nat} (h : boundedMagnitude? cs = some n) :
    integer 64 (-(n : Int)) = .ok (-(n : Int)) := by
  have bound := le_of_boundedMagnitude? h
  unfold maxMagnitude at bound
  exact integer_of_mem (by omega) (by omega)

/-- A literal has a minus sign, a plus sign or none. -/
theorem literal?_cases (text : List Char) :
    (∃ body, trim text = '-' :: body ∧
      Rv32i.literal? text = (boundedMagnitude? body).map fun n : Nat => -(n : Int)) ∨
    (∃ body, trim text = '+' :: body ∧
      Rv32i.literal? text = (boundedMagnitude? body).map fun n : Nat => (n : Int)) ∨
    ((∀ body, trim text ≠ '-' :: body) ∧ (∀ body, trim text ≠ '+' :: body) ∧
      Rv32i.literal? text = (boundedMagnitude? (trim text)).map fun n : Nat => (n : Int)) := by
  unfold Rv32i.literal?
  split
  · rename_i body whole
    exact .inl ⟨body, whole, rfl⟩
  · rename_i body whole
    exact .inr (.inl ⟨body, whole, rfl⟩)
  · rename_i minus plus
    exact .inr (.inr ⟨minus, plus, rfl⟩)

/-- **A literal is read without an abort**, whatever its sign. -/
theorem literal?_eq (text : List Char) : literal? text = .ok (Rv32i.literal? text) := by
  rcases literal?_cases text with ⟨body, minus, value⟩ | ⟨body, plus, value⟩ | ⟨minus, plus, value⟩
  · rw [literal?, value, minus]
    show (sliceFrom ('-' :: body) 1 >>= _) = _
    rw [sliceFrom_sign rfl, ok_bind]
    cases magnitude : boundedMagnitude? body with
    | none => rfl
    | some n =>
      show (integer 64 (-(n : Int)) >>= _) = _
      rw [negated_magnitude magnitude]
      rfl
  · rw [literal?, value, plus]
    show (sliceFrom ('+' :: body) 1 >>= _) = _
    rw [sliceFrom_sign rfl]
    rfl
  · rw [literal?, value]
    split
    · rename_i body whole
      exact absurd whole (minus body)
    · rename_i body whole
      exact absurd whole (plus body)
    · rfl

/-! ## 2. Operands -/

/-- The numbers of operands, as messages spell them. -/
def counts : Vector Nat 4 :=
  #v[0, 1, 2, 3]

/-- The operands of a text are not as many as they should be. -/
def wrongCount {α : Type} (opcode : Mnemonic) (expected : Nat) (text : List Char) :
    Guarded ParseFault α := do
  let expected ← (indexed counts expected : Except Abort Nat)
  throw (.operandCount opcode expected (Operands.parts text).length)

/-- No operand. -/
def noParts (opcode : Mnemonic) (text : List Char) : Guarded ParseFault Unit :=
  match Operands.parts text with
  | [] => return ()
  | _ => wrongCount opcode 0 text

/-- Exactly two operands. -/
def twoParts (opcode : Mnemonic) (text : List Char) : Guarded ParseFault (List Char × List Char) :=
  match Operands.parts text with
  | [a, b] => return (a, b)
  | _ => wrongCount opcode 2 text

/-- Exactly three operands. -/
def threeParts (opcode : Mnemonic) (text : List Char) :
    Guarded ParseFault (List Char × List Char × List Char) :=
  match Operands.parts text with
  | [a, b, c] => return (a, b, c)
  | _ => wrongCount opcode 3 text

/-- The parts of `reg` and `offset(base)`, cut at the byte offset of the parenthesis. -/
def bracketed? (reg address : List Char) : Except Abort (Option Operands.AddressParts) := do
  let reg := trim reg
  let address := trim address
  if reg.isEmpty then return none
  match offsetOf? (· = '(') address with
  | none => return none
  | some opening =>
    let inner ← sliceFrom address (← unsigned 64 (opening + 1 : Nat))
    if inner.getLast? ≠ some ')' then return none
    let base := trim inner.dropLast
    let offset := trim (← sliceTo address opening)
    if base.isEmpty || base.any (fun c => c = '(' || c = ')' || c = ',')
        || offset.any (fun c => c = ')' || c = ',') then
      return none
    return some ⟨reg, base, if offset.isEmpty then none else some offset⟩

/-- A register and an address in either form. -/
def addressParts (opcode : Mnemonic) (text : List Char) :
    Guarded ParseFault Operands.AddressParts :=
  if text.contains '(' then
    match cut (· = ',') text with
    | none => wrongCount opcode 2 text
    | some (reg, address) => do
      match ← bracketed? reg address with
      | none => throw (.malformedOperand (String.ofList text))
      | some ps => return ps
  else do
    let (reg, base, offset) ← threeParts opcode text
    return ⟨reg, base, some offset⟩

/-- The literal that a part writes. -/
def immediate (field : Field) (part : List Char) : Guarded ParseFault Word := do
  match ← literal? part with
  | some value => done (Operands.fit field value)
  | none => throw (.invalidImmediate (String.ofList part))

/-- The offset of an address, which is zero if none is written. -/
def offset (part : Option (List Char)) : Guarded ParseFault Word :=
  match part with
  | some part => do immediate (← signedField 12) part
  | none => return 0

/-- A branch or jump target seen from an instruction slot. -/
def target (labels : LabelTable) (slot bits : Nat) (part : List Char) :
    Guarded ParseFault (Word × Option String) := do
  match ← literal? part with
  | some value =>
    let imm ← done (Operands.fit (← signedField bits) value)
    return (imm, none)
  | none =>
    let name := String.ofList part
    if isIdentifier part then
      match labels.slot? name with
      | some there =>
        let distance ← integer 64 (reinterpreted there - reinterpreted slot)
        let bytes ← integer 64 (distance * 4)
        let imm ← done (Operands.fit (← signedField bits) bytes)
        return (imm, some name)
      | none => throw (.undefinedLabel name)
    else throw (.invalidImmediate name)

theorem getElem_counts : ∀ n : Fin 4, counts[n] = n.val := by
  decide

theorem wrongCount_eq {α : Type} (opcode : Mnemonic) {expected : Nat} (lt : expected < 4)
    (text : List Char) :
    wrongCount (α := α) opcode expected text =
      done (.error (.operandCount opcode expected (Operands.parts text).length)) := by
  have same : indexed counts expected = .ok expected := by
    rw [indexed_of_lt counts lt]
    exact congrArg Except.ok (getElem_counts ⟨expected, lt⟩)
  simp only [wrongCount, same, lift_ok, pure_bind]
  rfl

theorem noParts_eq (opcode : Mnemonic) (text : List Char) :
    noParts opcode text = done (Operands.noParts opcode text) := by
  unfold noParts Operands.noParts
  rw [wrongCount_eq opcode (by decide)]
  cases Operands.parts text <;> rfl

theorem twoParts_eq (opcode : Mnemonic) (text : List Char) :
    twoParts opcode text = done (Operands.twoParts opcode text) := by
  unfold twoParts Operands.twoParts
  rw [wrongCount_eq opcode (by decide)]
  rcases Operands.parts text with _ | ⟨a, _ | ⟨b, _ | ⟨c, ps⟩⟩⟩ <;> rfl

theorem threeParts_eq (opcode : Mnemonic) (text : List Char) :
    threeParts opcode text = done (Operands.threeParts opcode text) := by
  unfold threeParts Operands.threeParts
  rw [wrongCount_eq opcode (by decide)]
  rcases Operands.parts text with _ | ⟨a, _ | ⟨b, _ | ⟨c, _ | ⟨d, ps⟩⟩⟩⟩ <;> rfl

/-- **The first character of a kind is where the text is cut.** -/
theorem offsetOf?_eq (p : Char → Bool) (cs : List Char) :
    offsetOf? p cs = (cut p cs).map fun parts => byteLength parts.1 := by
  induction cs with
  | nil => rfl
  | cons c cs ih =>
    rw [offsetOf?, ih]
    unfold cut
    cases h : p c with
    | true => simp [h, byteLength]
    | false =>
      simp only [h, Bool.false_eq_true, if_false, List.dropWhile_cons, List.takeWhile_cons,
        Bool.not_false, if_true]
      cases cs.dropWhile (fun c => !p c) with
      | nil => rfl
      | cons d ds => simp

/-- What is left without blanks around it. -/
theorem trim_sublist (cs : List Char) : List.Sublist (trim cs) cs := by
  have start : List.Sublist (trimStart cs) cs := List.dropWhile_sublist isBlank
  have ends : List.Sublist (trimEnd (trimStart cs)) (trimStart cs) := by
    rw [← List.reverse_sublist, trimEnd, List.reverse_reverse]
    exact List.dropWhile_sublist isBlank
  exact ends.trans start

/-- What stands behind the cut. -/
theorem after_sublist {p : Char → Bool} {cs before after : List Char}
    (found : cut p cs = some (before, after)) : List.Sublist after cs := by
  obtain ⟨c, -, rfl⟩ := eq_of_cut found
  rw [List.append_cons]
  exact List.sublist_append_right _ _

/-- **An address is cut at its parenthesis**, in front of it and behind it. -/
theorem bracketed?_eq {reg address : List Char} (small : byteLength address < 2 ^ 63) :
    bracketed? reg address = .ok (Operands.bracketed? reg address) := by
  unfold bracketed? Operands.bracketed?
  simp only [offsetOf?_eq]
  cases found : cut (· = '(') (trim address) with
  | none =>
    simp only [Option.map_none]
    split <;> rfl
  | some parts =>
    obtain ⟨before, inner⟩ := parts
    obtain ⟨c, paren, whole⟩ := eq_of_cut found
    have size : byteLength (before ++ ['(']) = byteLength before + 1 := by
      rw [byteLength_append]
      rfl
    have whole : trim address = before ++ ['('] ++ inner := by
      rw [whole, of_decide_eq_true paren, List.append_assoc]
      rfl
    have room : byteLength before + 1 < 2 ^ 64 := by
      have le := byteLength_le_of_sublist (trim_sublist address)
      rw [whole, byteLength_append, size] at le
      omega
    have behind : sliceFrom (trim address) (byteLength before + 1) = .ok inner := by
      rw [whole, ← size]
      exact sliceFrom_append _ inner
    have front : sliceTo (trim address) (byteLength before) = .ok before := by
      rw [whole, List.append_assoc]
      exact sliceTo_append before _
    simp only [Option.map_some, unsigned_natCast room, ok_bind, behind, front,
      Option.bind_eq_bind, Option.bind_some]
    cases (trim reg).isEmpty with
    | true => cases inner.getLast? <;> rfl
    | false =>
      cases inner.getLast? with
      | none => rfl
      | some last =>
        by_cases closing : last = ')'
        · simp only [closing, ne_eq, not_true_eq_false, Bool.false_eq_true, if_false, decide_false,
            Bool.false_or, Option.bind_some]
          split <;> rfl
        · simp [closing]
          rfl

theorem addressParts_eq {opcode : Mnemonic} {text : List Char} (small : byteLength text < 2 ^ 63) :
    addressParts opcode text = done (Operands.addressParts opcode text) := by
  unfold addressParts Operands.addressParts
  rw [wrongCount_eq opcode (by decide), threeParts_eq]
  split
  · cases found : cut (· = ',') text with
    | none => rfl
    | some parts =>
      obtain ⟨reg, address⟩ := parts
      have small : byteLength address < 2 ^ 63 :=
        Nat.lt_of_le_of_lt (byteLength_le_of_sublist (after_sublist found)) small
      simp only [bracketed?_eq small]
      cases Operands.bracketed? reg address <;> rfl
  · cases Operands.threeParts opcode text <;> rfl

theorem immediate_eq (field : Field) (part : List Char) :
    immediate field part = done (Operands.immediate field part) := by
  unfold immediate Operands.immediate
  rw [literal?_eq]
  cases Rv32i.literal? part <;> rfl

theorem offset_eq (part : Option (List Char)) : offset part = done (Operands.offset part) := by
  cases part with
  | none => rfl
  | some part =>
    show (liftM (signedField 12) >>= fun field => immediate field part) = _
    rw [signedField_eq (by decide) (by decide), lift_ok, pure_bind, immediate_eq]
    rfl

/-- A bound on the instruction slots of a source that finds room. -/
def maxSlots : Nat :=
  2 ^ 57

theorem slot_lt_of_slot? {labels : LabelTable} {bound : Nat}
    (within : ∀ d ∈ labels.defs, d.slot < bound) {name : String} {slot : Nat}
    (found : labels.slot? name = some slot) : slot < bound := by
  obtain ⟨d, first, rfl⟩ := Option.map_eq_some_iff.mp found
  exact within d (List.mem_of_find?_eq_some first)

/-- **The distance to a label fits**, from every slot of a program. -/
theorem target_eq {labels : LabelTable} {slot bits : Nat} {part : List Char}
    (within : ∀ d ∈ labels.defs, d.slot < maxSlots) (here : slot < maxSlots) (positive : 1 ≤ bits)
    (le : bits ≤ 32) :
    target labels slot bits part = done (Operands.target labels slot (.signed bits) part) := by
  unfold target Operands.target
  rw [literal?_eq, lift_ok, pure_bind]
  cases Rv32i.literal? part with
  | some value =>
    simp only [signedField_eq positive le, lift_ok, pure_bind]
    cases Operands.fit (.signed bits) value <;> rfl
  | none =>
    simp only
    split
    · cases found : labels.slot? (String.ofList part) with
      | none => rfl
      | some there =>
        have there_lt := slot_lt_of_slot? within found
        unfold maxSlots at here there_lt
        have distance : integer 64 (reinterpreted there - reinterpreted slot) =
            .ok ((there : Int) - slot) := by
          rw [reinterpreted_of_lt (by omega), reinterpreted_of_lt (by omega)]
          exact integer_of_mem (by omega) (by omega)
        have bytes : integer 64 (((there : Int) - slot) * 4) = .ok (((there : Int) - slot) * 4) :=
          integer_of_mem (by omega) (by omega)
        simp only [distance, bytes, signedField_eq positive le, lift_ok, pure_bind]
        cases Operands.fit (.signed bits) (((there : Int) - slot) * 4) <;> rfl
    · rfl

/-! ## 3. Statements -/

/-- The record with the operands of its format. -/
def readOperands (labels : LabelTable) (record : Record) (text : List Char) :
    Guarded ParseFault Record :=
  let opcode := record.opcode
  match record.format with
  | .r => do
    let (rd, rs1, rs2) ← threeParts opcode text
    let rd ← done (Operands.register rd)
    let rs1 ← done (Operands.register rs1)
    let rs2 ← done (Operands.register rs2)
    return { record with rd := some rd, rs1 := some rs1, rs2 := some rs2 }
  | .i => do
    let (rd, rs1, imm) ← threeParts opcode text
    let rd ← done (Operands.register rd)
    let rs1 ← done (Operands.register rs1)
    let imm ← immediate (← signedField 12) imm
    return { record with rd := some rd, rs1 := some rs1, imm := some imm }
  | .il | .jalr => do
    let address ← addressParts opcode text
    let rd ← done (Operands.register address.reg)
    let rs1 ← done (Operands.register address.base)
    let imm ← offset address.offset
    return { record with rd := some rd, rs1 := some rs1, imm := some imm }
  | .s => do
    let address ← addressParts opcode text
    let rs2 ← done (Operands.register address.reg)
    let rs1 ← done (Operands.register address.base)
    let imm ← offset address.offset
    return { record with rs1 := some rs1, rs2 := some rs2, imm := some imm }
  | .sb => do
    let (rs1, rs2, goal) ← threeParts opcode text
    let rs1 ← done (Operands.register rs1)
    let rs2 ← done (Operands.register rs2)
    let (imm, label) ← target labels record.index 13 goal
    return { record with rs1 := some rs1, rs2 := some rs2, imm := some imm, label }
  | .uj => do
    let (rd, goal) ← twoParts opcode text
    let rd ← done (Operands.register rd)
    let (imm, label) ← target labels record.index 21 goal
    return { record with rd := some rd, imm := some imm, label }
  | .u => do
    let (rd, imm) ← twoParts opcode text
    let rd ← done (Operands.register rd)
    let imm ← immediate (← upperField) imm
    return { record with rd := some rd, imm := some imm }
  | .hlt => do
    noParts opcode text
    return record

/-- The record of the statement at an instruction slot and a source line. -/
def assembleStatement (labels : LabelTable) (slot line : Nat) (text : List Char) :
    Guarded ParseFault Record :=
  let (head, operands) := Statement.split text
  match Mnemonic.ofText? head with
  | some opcode =>
    readOperands labels (Record.bare opcode slot line (String.ofList text)) operands
  | none => throw (.unknownMnemonic (String.ofList head))

theorem readOperands_eq {labels : LabelTable} {record : Record} {text : List Char}
    (within : ∀ d ∈ labels.defs, d.slot < maxSlots) (here : record.index < maxSlots)
    (small : byteLength text < 2 ^ 63) :
    readOperands labels record text = done (Statement.readOperands labels record text) := by
  have branch part : target labels record.index 13 part = _ :=
    target_eq within here (by decide) (by decide)
  have jump part : target labels record.index 21 part = _ :=
    target_eq within here (by decide) (by decide)
  have twelve : signedField 12 = .ok (.signed 12) := signedField_eq (by decide) (by decide)
  unfold readOperands Statement.readOperands
  cases record.format with
  | r =>
    simp only [threeParts_eq, done_bind]
    rfl
  | i =>
    simp only [threeParts_eq, twelve, lift_ok, pure_bind, immediate_eq, done_bind]
    rfl
  | il | jalr =>
    simp only [addressParts_eq small, offset_eq, done_bind]
    rfl
  | s =>
    simp only [addressParts_eq small, offset_eq, done_bind]
    rfl
  | sb =>
    simp only [threeParts_eq, branch, done_bind]
    rfl
  | uj =>
    simp only [twoParts_eq, jump, done_bind]
    rfl
  | u =>
    simp only [twoParts_eq, upperField_eq, lift_ok, pure_bind, immediate_eq, done_bind]
    rfl
  | hlt =>
    simp only [noParts_eq, done_bind]
    rfl

theorem split_sublist (text : List Char) : List.Sublist (Statement.split text).2 text := by
  unfold Statement.split
  cases found : cut isBlank text with
  | none => exact List.nil_sublist _
  | some parts =>
    exact (trim_sublist parts.2).trans (after_sublist found)

/-- **Assembling a statement never aborts**, whatever its text. -/
theorem assembleStatement_eq {labels : LabelTable} {slot line : Nat} {text : List Char}
    (within : ∀ d ∈ labels.defs, d.slot < maxSlots) (here : slot < maxSlots)
    (small : byteLength text < 2 ^ 63) :
    assembleStatement labels slot line text = done (Statement.assemble labels slot line text) := by
  have operands := byteLength_le_of_sublist (split_sublist text)
  unfold assembleStatement Statement.assemble
  generalize Statement.split text = parts at operands ⊢
  obtain ⟨head, rest⟩ := parts
  simp only
  cases Mnemonic.ofText? head with
  | none => rfl
  | some opcode =>
    have place : (Record.bare opcode slot line (String.ofList text)).index < maxSlots := here
    exact readOperands_eq within place (Nat.lt_of_le_of_lt operands small)

end Rv32i.Checked
