import Rv32i.Proofs.Machine.HartInvariant
import Rv32i.Session.Snapshot

/-!
# Snapshots there and back

A snapshot lists the bytes of memory that are not zero, and restoring writes the listed cells one
after the other into a zeroed memory.

* `mem_nonzero`: the cells that are listed, and `pairwise_nonzero`: in which order;
* `writeCells_eq_ok`: cells inside the memory are all written, and of several with one address the
  last one counts; `writeCells_eq_error`: the first one outside it is the error;
* `restore_ofHart`: a sound hart comes back as it was;
* `restore_eq_ok`: a snapshot from outside is a hart's if it has 32 registers and its cells lie in
  the memory, and `Snapshot.Restores` says which hart that is;
* `restore_codec`: all of it together.
-/

namespace Rv32i

/-! ## 1. The cells of a memory -/

/-- **The listed cells** are the bytes that are not zero, each with its address as a word. -/
theorem Memory.mem_nonzero {m : Memory} {cell : Cell} :
    cell ∈ m.nonzero ↔ ∃ addr, m.byte addr ≠ 0 ∧ cell = ⟨BitVec.ofNat 32 addr, m.byte addr⟩ := by
  unfold nonzero
  rw [List.mem_map]
  constructor
  · rintro ⟨⟨addr, value⟩, listed, rfl⟩
    rw [Std.ExtTreeMap.mem_toList_iff_getElem?_eq_some, getElem?_cells] at listed
    split at listed
    · cases listed
    · rename_i ne
      cases listed
      exact ⟨addr, ne, rfl⟩
  · rintro ⟨addr, ne, rfl⟩
    refine ⟨(addr, m.byte addr), ?_, rfl⟩
    rw [Std.ExtTreeMap.mem_toList_iff_getElem?_eq_some, getElem?_cells, if_neg ne]

/-- In a sound memory a byte that is not zero has a word for its address. -/
theorem Hart.Sound.toNat_address {h : Hart} (sound : h.Sound) {addr : Nat}
    (ne : h.memory.byte addr ≠ 0) : (BitVec.ofNat 32 addr).toNat = addr := by
  have short : addr < 2 ^ 32 := Nat.lt_of_not_le fun beyond => ne (sound.beyond addr beyond)
  rw [BitVec.toNat_ofNat, Nat.mod_eq_of_lt short]

/-- Where words address every byte that is not zero, the listed cells are those that hold. -/
theorem Hart.Sound.mem_nonzero {h : Hart} (sound : h.Sound) {cell : Cell} :
    cell ∈ h.memory.nonzero ↔
      cell.value ≠ 0 ∧ h.memory.byte cell.address.toNat = cell.value := by
  rw [Memory.mem_nonzero]
  constructor
  · rintro ⟨addr, ne, rfl⟩
    exact ⟨ne, congrArg h.memory.byte (sound.toNat_address ne)⟩
  · rintro ⟨ne, holds⟩
    refine ⟨cell.address.toNat, holds ▸ ne, ?_⟩
    rw [holds, BitVec.ofNat_toNat, BitVec.setWidth_eq]

/-- **The cells are listed by their addresses**, each before all higher ones. -/
theorem Hart.Sound.pairwise_nonzero {h : Hart} (sound : h.Sound) :
    (h.memory.nonzero.map fun cell => cell.address.toNat).Pairwise (· < ·) := by
  have ordered := h.memory.cells.ordered_keys_toList
  have address : ∀ entry ∈ h.memory.cells.toList, (BitVec.ofNat 32 entry.1).toNat = entry.1 := by
    intro ⟨addr, value⟩ kept
    rw [Std.ExtTreeMap.mem_toList_iff_getElem?_eq_some, Memory.getElem?_cells] at kept
    split at kept
    · cases kept
    · rename_i ne
      exact sound.toNat_address ne
  rw [Memory.nonzero, List.map_map, List.pairwise_map]
  refine List.Pairwise.imp_of_mem (fun mem mem' lt => ?_) ordered
  have lt := Nat.compare_eq_lt.mp lt
  simp only [Function.comp_apply]
  rwa [address _ mem, address _ mem']

/-- The cells are the bytes of a memory that are not zero, each once and by address. -/
structure Memory.ListedBy (m : Memory) (cells : List Cell) : Prop where
  ascending : (cells.map fun cell => cell.address.toNat).Pairwise (· < ·)
  listed : ∀ addr value, (∃ cell ∈ cells, cell.address.toNat = addr ∧ cell.value = value) ↔
    value ≠ 0 ∧ m.byte addr = value

/-- **The listed cells make up a sound memory.** -/
theorem Hart.Sound.listedBy {h : Hart} (sound : h.Sound) : h.memory.ListedBy h.memory.nonzero where
  ascending := sound.pairwise_nonzero
  listed addr value := by
    constructor
    · intro ⟨cell, mem, address, same⟩
      subst address same
      exact sound.mem_nonzero.mp mem
    · intro ⟨ne, holds⟩
      have address : (BitVec.ofNat 32 addr).toNat = addr :=
        sound.toNat_address (holds.symm ▸ ne)
      refine ⟨⟨BitVec.ofNat 32 addr, value⟩, sound.mem_nonzero.mpr ⟨ne, ?_⟩, address, rfl⟩
      exact (congrArg h.memory.byte address).trans holds

/-! ## 2. Writing cells -/

/-- The last of the cells with an address. -/
def Cell.last? (cells : List Cell) (addr : Nat) : Option Cell :=
  cells.reverse.find? fun cell => cell.address.toNat = addr

theorem Cell.last?_cons (cell : Cell) (cells : List Cell) (addr : Nat) :
    last? (cell :: cells) addr =
      (last? cells addr).or (if cell.address.toNat = addr then some cell else none) := by
  unfold last?
  rw [List.reverse_cons, List.find?_append, List.find?_singleton]
  simp only [decide_eq_true_eq]

theorem Cell.mem_of_last? {cells : List Cell} {addr : Nat} {cell : Cell}
    (h : last? cells addr = some cell) : cell ∈ cells ∧ cell.address.toNat = addr := by
  unfold last? at h
  exact ⟨List.mem_reverse.mp (List.mem_of_find?_eq_some h), by simpa using List.find?_some h⟩

theorem Cell.last?_eq_none {cells : List Cell} {addr : Nat} (h : last? cells addr = none)
    {cell : Cell} (mem : cell ∈ cells) : cell.address.toNat ≠ addr := by
  unfold last? at h
  simpa using List.find?_eq_none.mp h cell (List.mem_reverse.mpr mem)

namespace Snapshot

/-- **Cells inside the memory are all written**, the last one of each address last. -/
theorem writeCells_eq_ok {cells : List Cell} {m : Memory}
    (inside : ∀ cell ∈ cells, cell.address.toNat < m.size) :
    ∃ m', writeCells m cells = .ok m' ∧ m'.size = m.size ∧
      ∀ a, m'.byte a = ((Cell.last? cells a).map Cell.value).getD (m.byte a) := by
  induction cells generalizing m with
  | nil => exact ⟨m, rfl, rfl, fun _ => rfl⟩
  | cons cell cells ih =>
    have here := inside cell List.mem_cons_self
    obtain ⟨m', written, size, bytes⟩ := ih (m := m.setByte cell.address.toNat cell.value)
      fun c hc => by
        rw [Memory.size_setByte]
        exact inside c (List.mem_cons_of_mem _ hc)
    refine ⟨m', ?_, ?_, fun a => ?_⟩
    · rw [writeCells, if_pos here, written]
    · rw [size, Memory.size_setByte]
    · rw [bytes, Cell.last?_cons, Memory.byte_setByte]
      cases Cell.last? cells a with
      | some later => rfl
      | none =>
        by_cases e : cell.address.toNat = a
        · subst e
          rw [if_pos rfl, if_pos ⟨rfl, here⟩]
          rfl
        · rw [if_neg e, if_neg fun h => e h.1.symm]
          rfl

/-- **The first cell outside the memory is the error.** -/
theorem writeCells_eq_error {m : Memory} {pre post : List Cell} {cell : Cell}
    (inside : ∀ c ∈ pre, c.address.toNat < m.size) (outside : m.size ≤ cell.address.toNat) :
    writeCells m (pre ++ cell :: post) = .error (.addressOutOfRange cell.address m.size) := by
  induction pre generalizing m with
  | nil => rw [List.nil_append, writeCells, if_neg (Nat.not_lt.mpr outside)]
  | cons first pre ih =>
    rw [List.cons_append, writeCells, if_pos (inside first List.mem_cons_self), ih]
    · rw [Memory.size_setByte]
    · intro c mem
      rw [Memory.size_setByte]
      exact inside c (List.mem_cons_of_mem _ mem)
    · rw [Memory.size_setByte]
      exact outside

/-- Either all cells lie in a memory of some size, or there is a first that does not. -/
theorem inside_or_first_outside (size : Nat) (cells : List Cell) :
    (∀ cell ∈ cells, cell.address.toNat < size) ∨
      ∃ pre cell post, cells = pre ++ cell :: post ∧ (∀ c ∈ pre, c.address.toNat < size) ∧
        size ≤ cell.address.toNat := by
  induction cells with
  | nil => exact .inl nofun
  | cons first cells ih =>
    by_cases here : first.address.toNat < size
    · rcases ih with inside | ⟨pre, cell, post, rfl, inside, outside⟩
      · exact .inl (List.forall_mem_cons.mpr ⟨here, inside⟩)
      · exact .inr ⟨first :: pre, cell, post, rfl, List.forall_mem_cons.mpr ⟨here, inside⟩, outside⟩
    · exact .inr ⟨[], first, cells, rfl, nofun, Nat.le_of_not_lt here⟩

/-- The cells of a memory, written into a zeroed one, make up the memory. -/
theorem writeCells_nonzero {h : Hart} (sound : h.Sound) :
    writeCells (.zero h.memory.size) h.memory.nonzero = .ok h.memory := by
  have inside : ∀ cell ∈ h.memory.nonzero,
      cell.address.toNat < (Memory.zero h.memory.size).size := fun cell listed => by
    obtain ⟨ne, holds⟩ := sound.mem_nonzero.mp listed
    refine Nat.lt_of_not_le fun outside => ne ?_
    exact holds.symm.trans (h.memory.byte_of_size_le outside)
  obtain ⟨m, written, size, bytes⟩ := writeCells_eq_ok inside
  rw [written]
  congr 1
  refine Memory.ext_byte (size.trans (Memory.size_zero _)) fun a => ?_
  rw [bytes, Memory.byte_zero]
  cases found : Cell.last? h.memory.nonzero a with
  | some cell =>
    obtain ⟨listed, rfl⟩ := Cell.mem_of_last? found
    exact (sound.mem_nonzero.mp listed).2.symm
  | none =>
    by_cases zero : h.memory.byte a = 0
    · exact zero.symm
    · have listed : (⟨BitVec.ofNat 32 a, h.memory.byte a⟩ : Cell) ∈ h.memory.nonzero :=
        Memory.mem_nonzero.mpr ⟨a, zero, rfl⟩
      exact absurd (sound.toNat_address zero) (Cell.last?_eq_none found listed)

/-! ## 3. The round trip -/

/-- The program a snapshot carries does not matter. -/
@[simp] theorem restore_withInstructions (s : Snapshot) (records : Array Record)
    (memorySize : Nat) : (s.withInstructions records).restore memorySize = s.restore memorySize :=
  rfl

theorem set_zero_regs {h : Hart} (zero : h.reg 0 = 0) : h.regs.set 0 0 = h.regs := by
  apply Vector.ext
  intro i hi
  rw [Vector.getElem_set]
  split
  · rename_i e
    subst e
    exact zero.symm
  · rfl

/-- **A sound hart comes back from its snapshot.** -/
theorem restore_ofHart {h : Hart} (sound : h.Sound) :
    (ofHart h).restore h.memory.size = .ok h := by
  have count : (ofHart h).registers.length = 32 := h.regs.size_toArray
  unfold restore
  rw [dif_pos count]
  show (writeCells (.zero h.memory.size) h.memory.nonzero >>= fun memory =>
    Except.ok (⟨h.regs.set 0 0, memory, h.pc, h.halted⟩ : Hart)) = _
  rw [writeCells_nonzero sound, set_zero_regs sound.zero]
  rfl

/-! ## 4. Snapshots from outside -/

/-- **The hart is what the snapshot describes**: its registers but for register 0, its program
    counter and mark, and in each byte the last cell with that address, or zero where there is
    none. -/
structure Restores (s : Snapshot) (memorySize : Nat) (h : Hart) : Prop where
  zero : h.reg 0 = 0
  registers : ∀ r : Reg, r ≠ 0 → s.registers[r.val]? = some (h.reg r)
  pc : h.pc = s.pc
  halted : h.halted = s.halted
  size : h.memory.size = memorySize
  bytes : ∀ a, h.memory.byte a = ((Cell.last? s.memory a).map Cell.value).getD 0

/-- Words address every byte that a cell describes. -/
theorem Restores.sound {s : Snapshot} {memorySize : Nat} {h : Hart}
    (restores : s.Restores memorySize h) : h.Sound where
  zero := restores.zero
  beyond a beyond := by
    rw [restores.bytes]
    cases found : Cell.last? s.memory a with
    | none => rfl
    | some cell =>
      have address := (Cell.mem_of_last? found).2
      have bound := cell.address.isLt
      omega

/-- **Cells inside the memory and 32 registers are a hart's.** -/
theorem restore_eq_ok {s : Snapshot} {memorySize : Nat} (count : s.registers.length = 32)
    (inside : ∀ cell ∈ s.memory, cell.address.toNat < memorySize) :
    ∃ h, s.restore memorySize = .ok h ∧ s.Restores memorySize h := by
  obtain ⟨memory, written, size, bytes⟩ := writeCells_eq_ok (m := .zero memorySize) inside
  unfold restore
  rw [dif_pos count, written]
  refine ⟨_, rfl, ?_, fun r ne => ?_, rfl, rfl, size, fun a => ?_⟩
  · exact Vector.getElem_set_self _
  · have other : (0 : Nat) ≠ r.val := fun e => ne (Fin.ext e.symm)
    have bound : r.val < s.registers.length := by
      rw [count]
      exact r.isLt
    let regs : Vector Word 32 := ⟨s.registers.toArray, count⟩
    have kept : (regs.set 0 0)[r.val] = regs[r.val] := Vector.getElem_set_ne _ _ other
    rw [List.getElem?_eq_getElem bound]
    exact congrArg some kept.symm
  · rw [bytes, Memory.byte_zero]

/-- A wrong number of registers is an error, whatever the cells are. -/
theorem restore_of_count {s : Snapshot} {memorySize : Nat} (count : s.registers.length ≠ 32) :
    s.restore memorySize = .error (.registerCount s.registers.length) := by
  unfold restore
  rw [dif_neg count]

/-- The snapshot has the right number of registers and a first cell outside the memory. -/
structure Outside (s : Snapshot) (memorySize : Nat) (cell : Cell) : Prop where
  count : s.registers.length = 32
  first : ∃ pre post, s.memory = pre ++ cell :: post ∧
    (∀ c ∈ pre, c.address.toNat < memorySize) ∧ memorySize ≤ cell.address.toNat

/-- With the right number of registers, the first cell outside the memory is the error. -/
theorem restore_of_outside {s : Snapshot} {memorySize : Nat} {cell : Cell}
    (outside : s.Outside memorySize cell) :
    s.restore memorySize = .error (.addressOutOfRange cell.address memorySize) := by
  obtain ⟨count, pre, post, split, inside, outside⟩ := outside
  unfold restore
  rw [dif_pos count, split, writeCells_eq_error (m := .zero memorySize) inside outside]
  rfl

/-- **There are no other cases**: a snapshot has the wrong number of registers, a first cell outside
    the memory, or neither. -/
theorem count_or_outside_or_inside (s : Snapshot) (memorySize : Nat) :
    s.registers.length ≠ 32 ∨ (∃ cell, s.Outside memorySize cell) ∨
      (s.registers.length = 32 ∧ ∀ cell ∈ s.memory, cell.address.toNat < memorySize) := by
  by_cases count : s.registers.length = 32
  · rcases inside_or_first_outside memorySize s.memory with
      inside | ⟨pre, cell, post, split, inside, outside⟩
    · exact .inr (.inr ⟨count, inside⟩)
    · exact .inr (.inl ⟨cell, count, pre, post, split, inside, outside⟩)
  · exact .inl count

/-- **What restoring accepts**, and the hart it makes. -/
theorem restore_eq_ok_iff {s : Snapshot} {memorySize : Nat} :
    (∃ h, s.restore memorySize = .ok h) ↔
      s.registers.length = 32 ∧ ∀ cell ∈ s.memory, cell.address.toNat < memorySize := by
  constructor
  · intro ⟨h, restored⟩
    rcases s.count_or_outside_or_inside memorySize with count | ⟨cell, outside⟩ | accepted
    · cases restored.symm.trans (restore_of_count count)
    · cases restored.symm.trans (restore_of_outside outside)
    · exact accepted
  · intro ⟨count, inside⟩
    obtain ⟨h, restored, -⟩ := restore_eq_ok count inside
    exact ⟨h, restored⟩

theorem restores_of_restore {s : Snapshot} {memorySize : Nat} {h : Hart}
    (restored : s.restore memorySize = .ok h) : s.Restores memorySize h := by
  obtain ⟨count, inside⟩ := restore_eq_ok_iff.mp ⟨h, restored⟩
  obtain ⟨h', again, restores⟩ := restore_eq_ok count inside
  cases restored.symm.trans again
  exact restores

/-- **What restoring refuses**, and how. -/
theorem restore_eq_error_iff {s : Snapshot} {memorySize : Nat} {error : SnapshotError} :
    s.restore memorySize = .error error ↔
      (s.registers.length ≠ 32 ∧ error = .registerCount s.registers.length) ∨
      ∃ cell, s.Outside memorySize cell ∧ error = .addressOutOfRange cell.address memorySize := by
  constructor
  · intro refused
    rcases s.count_or_outside_or_inside memorySize with count | ⟨cell, outside⟩ | ⟨count, inside⟩
    · exact .inl ⟨count, Except.error.inj (refused.symm.trans (restore_of_count count))⟩
    · exact .inr ⟨cell, outside, Except.error.inj (refused.symm.trans (restore_of_outside outside))⟩
    · obtain ⟨h, restored, -⟩ := restore_eq_ok count inside
      cases refused.symm.trans restored
  · intro causes
    rcases causes with ⟨count, rfl⟩ | ⟨cell, outside, rfl⟩
    · exact restore_of_count count
    · exact restore_of_outside outside

/-- **Snapshots and harts correspond.** Every hart that commands make of the zeroed one comes back
    from its snapshot. A snapshot from outside is restored exactly if it has 32 registers and its
    cells lie in the memory. The hart is then the one it describes, and its own snapshot lists the
    bytes that are not zero, each once, by address. Otherwise the error is the number of registers,
    or if that is right the first cell outside the memory. -/
theorem restore_codec (memorySize : Nat) :
    (∀ h, Hart.Reachable memorySize h → (ofHart h).restore memorySize = .ok h) ∧
    ∀ s : Snapshot,
      ((∃ h, s.restore memorySize = .ok h) ↔
        s.registers.length = 32 ∧ ∀ cell ∈ s.memory, cell.address.toNat < memorySize) ∧
      (∀ h, s.restore memorySize = .ok h →
        s.Restores memorySize h ∧ h.memory.ListedBy (ofHart h).memory) ∧
      ∀ error, s.restore memorySize = .error error ↔
        (s.registers.length ≠ 32 ∧ error = .registerCount s.registers.length) ∨
        ∃ cell, s.Outside memorySize cell ∧
          error = .addressOutOfRange cell.address memorySize := by
  refine ⟨fun h reachable => ?_, fun s => ⟨restore_eq_ok_iff, fun h restored => ?_, fun _ =>
    restore_eq_error_iff⟩⟩
  · have round := restore_ofHart reachable.sound
    rwa [reachable.size] at round
  · have restores := restores_of_restore restored
    exact ⟨restores, restores.sound.listedBy⟩

/-- A hart with a word in its memory, and a snapshot that writes two bytes twice and register 0. -/
theorem restore_codec_rewritten :
    let h := ((Hart.zero 8).perform (.setReg 5 7)).perform (.store .word 4 0x00FF0100)
    let s : Snapshot :=
      { registers := 9 :: List.replicate 31 1, memory := [⟨3, 1⟩, ⟨2, 5⟩, ⟨3, 0⟩, ⟨2, 6⟩], pc := 2,
        halted := false }
    (ofHart h).restore 8 = .ok h ∧
      (∃ h', s.restore 8 = .ok h' ∧ h'.reg 0 = 0 ∧ h'.memory.byte 2 = 6 ∧ h'.memory.byte 3 = 0 ∧
        ∀ cell ∈ (ofHart h').memory, cell.address.toNat ≠ 3) ∧
      s.restore 3 = .error (.addressOutOfRange 3 3) := by
  intro h s
  obtain ⟨comesBack, outside⟩ := restore_codec 8
  obtain ⟨accepts, describes, -⟩ := outside s
  obtain ⟨h', restored⟩ := accepts.mpr ⟨rfl, by decide⟩
  obtain ⟨restores, listed⟩ := describes h' restored
  have zero : h'.memory.byte 3 = 0 := restores.bytes 3
  have unlisted : ∀ cell ∈ (ofHart h').memory, cell.address.toNat ≠ 3 := by
    intro cell mem address
    obtain ⟨ne, holds⟩ := (listed.listed 3 cell.value).mp ⟨cell, mem, address, rfl⟩
    exact ne (holds.symm.trans zero)
  obtain ⟨-, -, refuses⟩ := (restore_codec 3).2 s
  refine ⟨comesBack h ?_, ⟨h', restored, restores.zero, restores.bytes 2, zero, unlisted⟩, ?_⟩
  · exact .perform (.perform .zero (.setReg 5 7)) (.store .word 4 0x00FF0100)
  · exact (refuses _).mpr (.inr ⟨⟨3, 1⟩, ⟨rfl, [], _, rfl, nofun, by decide⟩, rfl⟩)

end Snapshot

end Rv32i
