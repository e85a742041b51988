import Rv32i.Proofs.Assembly.Listing
import Rv32i.Proofs.Session.Window
import Rv32i.Proofs.Text.Telling
import Rv32i.Report.StateReport

/-!
# Reports tell states apart

A report without styles can be read back. The program counter ends where a space stands, every
register and every byte has a column of its own, and the history stands behind all of them: no
text in it can be taken for a part of the state.

* `flatten_rows`, `tells_rows`: rows of a length, and lists printed in rows;
* `tells_registerText`, `tells_byte`, `tells_memoryRow`: a column, two digits, a row of bytes;
* `headline_inj`, `tells_registerRows`, `tells_memoryRows`: the parts of a report, whatever follows;
* `render_tells_states`: two reports with the same text are of the same state.
-/

namespace Rv32i

open Text

namespace StateReport

variable {α : Type}

/-! ## 1. Rows -/

theorem flatten_rowsAfter {length : Nat} (positive : 0 < length) (before : List (List α))
    {budget : Nat} {items : List α} (enough : items.length ≤ budget) :
    (rowsAfter length before budget items).flatten = before.reverse.flatten ++ items := by
  induction budget generalizing before items with
  | zero =>
    rw [List.eq_nil_of_length_eq_zero (Nat.le_zero.mp enough), List.append_nil]
    rfl
  | succ budget ih =>
    cases items with
    | nil =>
      rw [List.append_nil]
      rfl
    | cons item items =>
      have shorter : ((item :: items).drop length).length ≤ budget := by
        rw [List.length_drop]
        omega
      rw [rowsAfter, ih _ shorter, List.reverse_cons, List.flatten_append, List.flatten_singleton,
        List.append_assoc, List.take_append_drop]

/-- **The rows are the list**, cut. -/
theorem flatten_rows {length : Nat} (positive : 0 < length) (items : List α) :
    (rows length items).flatten = items :=
  flatten_rowsAfter positive [] (Nat.le_refl _)

theorem forall₂_rowsAfter {alike : α → α → Prop} (length budget : Nat) {xs ys : List α}
    (same : List.Forall₂ alike xs ys) {before before' : List (List α)}
    (made : List.Forall₂ (List.Forall₂ alike) before before') :
    List.Forall₂ (List.Forall₂ alike) (rowsAfter length before budget xs)
      (rowsAfter length before' budget ys) := by
  induction budget generalizing xs ys before before' with
  | zero => exact List.forall₂_reverse_iff.mpr made
  | succ budget ih =>
    cases same with
    | nil => exact List.forall₂_reverse_iff.mpr made
    | cons here rest =>
      exact ih (List.forall₂_drop length (.cons here rest))
        (.cons (List.forall₂_take length (.cons here rest)) made)

/-- Lists with alike values have alike rows. -/
theorem forall₂_rows {alike : α → α → Prop} (length : Nat) {xs ys : List α}
    (same : List.Forall₂ alike xs ys) :
    List.Forall₂ (List.Forall₂ alike) (rows length xs) (rows length ys) := by
  rw [rows, rows, same.length_eq]
  exact forall₂_rowsAfter length _ same .nil

/-- **Rows that tell their values apart** tell the lists apart. -/
theorem tells_rows {alike : α → α → Prop} {row : List α → String} {length : Nat}
    (positive : 0 < length) (tells : Tells (List.Forall₂ alike) row) :
    Tells (List.Forall₂ alike) fun items => String.join ((rows length items).map row) := by
  intro xs ys same r r' h
  obtain ⟨equal, behind⟩ := tells.join (forall₂_rows length same) h
  have flat := congrArg List.flatten equal
  rw [flatten_rows positive, flatten_rows positive] at flat
  exact ⟨flat, behind⟩

/-- Numbered values are alike if the values are and the numbers are the same. -/
theorem forall₂_zipIdx {alike : α → α → Prop} {xs ys : List α} (same : List.Forall₂ alike xs ys)
    (start : Nat) :
    List.Forall₂ (fun p q => alike p.1 q.1 ∧ p.2 = q.2) (xs.zipIdx start) (ys.zipIdx start) := by
  induction same generalizing start with
  | nil => exact .nil
  | cons here _ ih => exact .cons ⟨here, rfl⟩ (ih (start + 1))

/-- Nothing is known of values but how many there are. -/
theorem forall₂_of_length {xs ys : List α} (same : xs.length = ys.length) :
    List.Forall₂ (fun _ _ => True) xs ys :=
  List.forall₂_iff_get.mpr ⟨same, fun _ _ _ => trivial⟩

/-! ## 2. Registers -/

/-- No numeral of a word is wider than the column. -/
theorem length_signed_le (w : Word) : (signed w.toInt).length ≤ 11 := by
  have bound : w.toInt.natAbs < 10 ^ 10 := by
    have := w.isLt
    have := BitVec.toInt_eq_toNat_cond w
    omega
  have digits : (decimal w.toInt.natAbs).length ≤ 10 := by
    rw [decimal, String.length_ofList]
    exact (Nat.length_toDigits_le_iff (by decide) (by decide)).mpr bound
  unfold signed
  split
  · rw [String.length_append]
    show 1 + _ ≤ 11
    omega
  · omega

theorem signed_inj {w w' : Word} (h : signed w.toInt = signed w'.toInt) : w = w' := by
  have read := Operands.literal?_toInt w
  rw [h, Operands.literal?_toInt] at read
  exact (BitVec.toInt_inj.mp (Option.some.inj read)).symm

/-- **The column of a word tells its value.** -/
theorem tells_column :
    Tells (fun _ _ => True) fun w : Word => padLeft 11 ' ' (signed w.toInt) := by
  have noSpace (w : Word) : ' ' ∉ (signed w.toInt).toList :=
    (token_signed w.toInt).not_mem (by decide)
  refine tells_of_width (fun w w' _ => ?_) fun w w' _ h =>
    signed_inj (padLeft_inj (noSpace w) (noSpace w') h)
  rw [length_padLeft (length_signed_le w), length_padLeft (length_signed_le w')]

/-- What stands in front of the column is the same for every value of the register. -/
theorem exists_registerText (index : Nat) : ∃ name : String, ∀ value : Word,
    registerText false index value = name ++ padLeft 11 ' ' (signed value.toInt) :=
  ⟨_, fun value => by simp only [registerText, Style.paint_false, ite_self]; rfl⟩

/-- Registers with the same number have the same name. -/
theorem tells_registerText : Tells (fun p q : Word × Nat => True ∧ p.2 = q.2)
    fun p => registerText false p.2 p.1 := by
  rintro ⟨value, index⟩ ⟨value', _⟩ ⟨-, rfl⟩ r r' h
  obtain ⟨name, text⟩ := exists_registerText index
  simp only [text, String.toList_append, List.append_assoc] at h
  obtain ⟨rfl, behind⟩ := tells_column trivial (List.append_cancel_left h)
  exact ⟨rfl, behind⟩

/-- **The rows of registers tell the values**, if it is known how many there are. -/
theorem tells_registerRows : Tells (fun xs ys : List Word => xs.length = ys.length)
    (registerRows false) := by
  intro xs ys same r r' h
  have row : Tells (List.Forall₂ fun p q : Word × Nat => True ∧ p.2 = q.2) fun row =>
      "" ++ String.join (row.map fun p => registerText false p.2 p.1) ++ "\n" :=
    tells_registerText.join.between fun _ _ _ => ⟨rfl, rfl⟩
  obtain ⟨numbered, behind⟩ :=
    tells_rows (by decide) row (forall₂_zipIdx (forall₂_of_length same) 0) h
  have values := congrArg (List.map Prod.fst) numbered
  rw [List.zipIdx_map_fst, List.zipIdx_map_fst] at values
  exact ⟨values, behind⟩

/-! ## 3. Memory -/

/-- **Two digits tell a byte.** -/
theorem tells_byte :
    Tells (fun _ _ => True) fun b : Byte => padLeft 2 '0' (hex b.toNat) := by
  have fits (b : Byte) : (hex b.toNat).length ≤ 2 := by
    rw [hex, String.length_ofList]
    exact (Nat.length_toDigits_le_iff (by decide) (by decide)).mpr b.isLt
  refine tells_of_width (fun b b' _ => ?_) fun b b' _ h => ?_
  · rw [length_padLeft (fits b), length_padLeft (fits b')]
  · have read := natOfDigits?_padLeft (by decide : 1 < 16) (by decide) 2 b.toNat
    rw [← hex, h, hex, natOfDigits?_padLeft (by decide) (by decide)] at read
    exact BitVec.eq_of_toNat_eq (Option.some.inj read).symm

/-- The address in front of a row is that of its number. -/
theorem tells_memoryRow :
    Tells (fun p q : List Byte × Nat => List.Forall₂ (fun _ _ => True) p.1 q.1 ∧ p.2 = q.2)
      fun p => memoryRow false p.2 p.1 := by
  rintro ⟨bytes, row⟩ ⟨bytes', _⟩ ⟨same, rfl⟩ r r' h
  simp only [memoryRow, String.toList_append, List.append_assoc] at h
  obtain ⟨rfl, behind⟩ := tells_byte.intercalate " " same
    (List.append_cancel_left (List.append_cancel_left (List.append_cancel_left h)))
  exact ⟨rfl, List.append_cancel_left behind⟩

/-- **The rows of memory tell the bytes**, if it is known how many there are. -/
theorem tells_memoryRows : Tells (fun xs ys : List Byte => xs.length = ys.length)
    (memoryRows false) := by
  intro xs ys same r r' h
  obtain ⟨numbered, behind⟩ :=
    tells_memoryRow.join (forall₂_zipIdx (forall₂_rows 16 (forall₂_of_length same)) 0) h
  have cut := congrArg (List.map Prod.fst) numbered
  rw [List.zipIdx_map_fst, List.zipIdx_map_fst] at cut
  have bytes := congrArg List.flatten cut
  rw [flatten_rows (by decide), flatten_rows (by decide)] at bytes
  exact ⟨bytes, behind⟩

/-! ## 4. The report -/

/-- **The first line tells the program counter and the halted mark.** -/
theorem headline_inj {s s' : Snapshot} {r r' : List Char}
    (h : (headline false s).toList ++ r = (headline false s').toList ++ r') :
    s.pc = s'.pc ∧ s.halted = s'.halted ∧ r = r' := by
  have space : " (0x".toList = ' ' :: "(0x".toList := rfl
  simp only [headline, Style.paint_false, String.toList_append, List.append_assoc, space,
    List.cons_append] at h
  obtain ⟨counter, rest⟩ :=
    decimal_space_inj (List.append_cancel_left (List.append_cancel_left h))
  have pc : s.pc = s'.pc := BitVec.eq_of_toNat_eq counter
  rw [pc] at rest
  have status := List.append_cancel_left (List.append_cancel_left (List.append_cancel_left rest))
  refine ⟨pc, ?_⟩
  cases hs : s.halted <;> cases hs' : s'.halted <;> simp [hs, hs'] at status ⊢ <;> exact status

/-- **A report tells the state.** Two reports with the same text, of snapshots with 32 registers,
    show the same program counter, the same halted mark, the same registers and as many bytes of
    memory, which are the same, whatever histories stand behind them. -/
theorem render_tells_states (report report' : StateReport)
    (count : report.snapshot.registers.length = 32)
    (count' : report'.snapshot.registers.length = 32)
    (same : render false report = render false report') :
    report.snapshot.pc = report'.snapshot.pc ∧
      report.snapshot.halted = report'.snapshot.halted ∧
      report.snapshot.registers = report'.snapshot.registers ∧
      report.window = report'.window ∧
      report.snapshot.window report.window = report'.snapshot.window report'.window := by
  have text := congrArg String.toList same
  have space : " bytes)\n".toList = ' ' :: "bytes)\n".toList := rfl
  simp only [render, Style.paint_false, String.toList_append, List.append_assoc, space,
    List.cons_append, Array.length_toList, Snapshot.size_window] at text
  obtain ⟨pc, halted, text⟩ := headline_inj text
  obtain ⟨registers, text⟩ := tells_registerRows (count.trans count'.symm)
    (List.append_cancel_left (List.append_cancel_left text))
  obtain ⟨window, text⟩ :=
    decimal_space_inj (List.append_cancel_left (List.append_cancel_left text))
  obtain ⟨bytes, -⟩ := tells_memoryRows
    (by simp only [Array.length_toList, Snapshot.size_window, window])
    (List.append_cancel_left text)
  exact ⟨pc, halted, registers, window, Array.toList_inj.mp bytes⟩

/-- One source with line ends in it looks like two entries, and a cell that is written over shows as
    little as one behind the window. What does show of the states is the same. -/
theorem render_tells_states_imitated :
    let entry (source : String) : HistoryEntry := ⟨0, 1, source⟩
    let seen : StateReport :=
      { snapshot := { Snapshot.zero with memory := [⟨1, 171⟩] }
        window := 2
        history := some (((History.empty 4).push (entry "hlt")).push (entry "hlt")) }
    let imitated : StateReport :=
      { snapshot := { Snapshot.zero with memory := [⟨1, 7⟩, ⟨9, 1⟩, ⟨1, 171⟩] }
        window := 2
        history := some ((History.empty 4).push (entry "hlt\n  pc=0      line 1     hlt")) }
    seen.snapshot ≠ imitated.snapshot ∧
      seen.history.map History.entries ≠ imitated.history.map History.entries ∧
      render false seen = render false imitated ∧
      seen.snapshot.window 2 = imitated.snapshot.window 2 := by
  intro entry seen imitated
  have history : historyText false ((seen.history.map History.entries).getD []) =
      historyText false ((imitated.history.map History.entries).getD []) := by decide
  have same : render false seen = render false imitated := by
    unfold render
    rw [history]
    rfl
  exact ⟨by decide, by decide, same, (render_tells_states seen imitated rfl rfl same).2.2.2.2⟩

end StateReport

end Rv32i
