import Rv32i.Proofs.Session.Exchange

/-!
# The start of a memory

A snapshot's cells are written out twice: `Snapshot.restore` writes them into a memory and refuses
those outside it, `Snapshot.window` writes them into the first bytes and passes over those behind
them. Both take the last cell of an address.

* `size_window`, `getElem?_window`: the bytes of a window;
* `window_of_restore`: they are those of the restored memory, and zeros behind it;
* `toList_window_of_restore`, `map_byte_range'`: the whole window; what is longer than the memory
  are zeros.

The main statement is `window_agrees_with_restore`.
-/

namespace Rv32i

namespace Snapshot

/-! ## 1. The bytes of a window -/

/-- A byte that is set, if there is one to set. -/
theorem getElem?_set (bytes : Array Byte) (i : Nat) (value : Byte) (a : Nat) :
    (bytes.setIfInBounds i value)[a]? = bytes[a]?.map fun b => if i = a then value else b := by
  rw [Array.getElem?_setIfInBounds]
  by_cases here : i = a
  · subst here
    by_cases inside : i < bytes.size
    · simp [inside]
    · simp [inside]
  · simp [here]

/-- Cells change the bytes at their addresses, and the last one of an address counts. -/
theorem getElem?_foldl_cells (cells : List Cell) (bytes : Array Byte) (a : Nat) :
    (cells.foldl (fun bytes cell => bytes.setIfInBounds cell.address.toNat cell.value) bytes)[a]? =
      bytes[a]?.map fun b => ((Cell.last? cells a).map Cell.value).getD b := by
  induction cells generalizing bytes with
  | nil => exact (Option.map_id' ..).symm
  | cons cell cells ih =>
    rw [List.foldl_cons, ih, getElem?_set, Option.map_map]
    congr 1
    funext b
    rw [Function.comp_apply, Cell.last?_cons]
    cases Cell.last? cells a with
    | some later => rfl
    | none =>
      by_cases here : cell.address.toNat = a
      · rw [if_pos here, if_pos here]
        rfl
      · rw [if_neg here, if_neg here]
        rfl

@[simp] theorem size_window (s : Snapshot) (length : Nat) : (s.window length).size = length := by
  have kept (cells : List Cell) (bytes : Array Byte) :
      (cells.foldl (fun bytes cell => bytes.setIfInBounds cell.address.toNat cell.value)
        bytes).size = bytes.size := by
    induction cells generalizing bytes with
    | nil => rfl
    | cons cell cells ih => rw [List.foldl_cons, ih, Array.size_setIfInBounds]
  exact (kept _ _).trans Array.size_replicate

/-- **A byte of the window** is the last cell with its address, or zero where there is none. -/
theorem getElem?_window (s : Snapshot) {length a : Nat} (lt : a < length) :
    (s.window length)[a]? = some (((Cell.last? s.memory a).map Cell.value).getD 0) := by
  rw [window, getElem?_foldl_cells, Array.getElem?_replicate, if_pos lt]
  rfl

/-! ## 2. The window of what is restored -/

/-- **The window holds the restored bytes**, and zeros where no memory was restored. -/
theorem window_of_restore {s : Snapshot} {memorySize : Nat} {h : Hart}
    (restored : s.restore memorySize = .ok h) {length a : Nat} (lt : a < length) :
    (s.window length)[a]? = some (h.memory.byte a) := by
  rw [getElem?_window s lt, (restores_of_restore restored).bytes]

theorem toList_window_of_restore {s : Snapshot} {memorySize : Nat} {h : Hart}
    (restored : s.restore memorySize = .ok h) (length : Nat) :
    (s.window length).toList = (List.range' 0 length).map h.memory.byte := by
  apply List.ext_getElem?
  intro a
  rw [Array.getElem?_toList, List.getElem?_map]
  by_cases lt : a < length
  · rw [window_of_restore restored lt, List.getElem?_range' lt]
    simp
  · have outside : length ≤ a := Nat.le_of_not_lt lt
    rw [Array.getElem?_eq_none (by rw [size_window]; exact outside),
      List.getElem?_eq_none (by rw [List.length_range']; exact outside)]
    rfl

/-- The bytes behind a memory read as zeros. -/
theorem map_byte_range' (m : Memory) (length : Nat) :
    (List.range' 0 length).map m.byte =
      (List.range' 0 (min length m.size)).map m.byte ++ List.replicate (length - m.size) 0 := by
  have split : length = min length m.size + (length - m.size) := by omega
  have behind : (List.range' (min length m.size) (length - m.size)).map m.byte =
      List.replicate (length - m.size) 0 := by
    refine List.eq_replicate_iff.mpr ⟨by simp, fun b mem => ?_⟩
    obtain ⟨a, inside, rfl⟩ := List.mem_map.mp mem
    have bounds := List.mem_range'_1.mp inside
    exact m.byte_of_size_le (by omega)
  rw [← behind, ← List.map_append]
  congr 1
  conv => lhs; rw [split]
  rw [← List.range'_append_1, Nat.zero_add]

/-- **A window shows what restoring writes.** It has the length asked for. Its bytes are those of
    the restored memory as far as that reaches, and zeros behind it. So the window of a reachable
    hart's snapshot is the start of its memory, padded with zeros. -/
theorem window_agrees_with_restore (memorySize length : Nat) :
    (∀ (s : Snapshot) (h : Hart), s.restore memorySize = .ok h →
      (s.window length).size = length ∧
      (∀ a < min length memorySize, (s.window length)[a]? = some (h.memory.byte a)) ∧
      ∀ a, memorySize ≤ a → a < length → (s.window length)[a]? = some 0) ∧
    ∀ h : Hart, Hart.Reachable memorySize h →
      ∃ bytes, h.memory.slice? 0 (min length memorySize) = some bytes ∧
        ((ofHart h).window length).toList = bytes ++ List.replicate (length - memorySize) 0 := by
  refine ⟨fun s h restored => ⟨size_window s length, fun a lt => ?_, fun a outside lt => ?_⟩,
    fun h reachable => ?_⟩
  · exact window_of_restore restored (Nat.lt_of_lt_of_le lt (Nat.min_le_left ..))
  · have size := (restores_of_restore restored).size
    rw [window_of_restore restored lt, h.memory.byte_of_size_le (size ▸ outside)]
  · have size := reachable.size
    subst size
    refine ⟨_, if_pos ?_, ?_⟩
    · omega
    · rw [toList_window_of_restore (restore_ofHart reachable.sound), map_byte_range']

/-- Two of the cells write one byte, a third clears another. The memory has four bytes, the window
    six. -/
theorem window_agrees_with_restore_rewritten :
    let s : Snapshot :=
      { registers := List.replicate 32 1, memory := [⟨3, 9⟩, ⟨1, 5⟩, ⟨3, 7⟩, ⟨1, 0⟩], pc := 0,
        halted := false }
    let h := (Hart.zero 4).perform (.store .half 2 0x0700)
    (∃ restored, s.restore 4 = .ok restored ∧ (s.window 6)[3]? = some 7 ∧
        restored.memory.byte 3 = 7 ∧ (s.window 6)[1]? = some 0 ∧ (s.window 6)[5]? = some 0) ∧
      ((ofHart h).window 6).toList = [0, 0, 0, 7, 0, 0] := by
  intro s h
  obtain ⟨restored, ok⟩ := (@restore_eq_ok_iff s 4).mpr ⟨rfl, by decide⟩
  have bytes := (restores_of_restore ok).bytes
  obtain ⟨agrees, starts⟩ := window_agrees_with_restore 4 6
  obtain ⟨-, inside, behind⟩ := agrees s restored ok
  refine ⟨⟨restored, ok, ?_, bytes 3, ?_, behind 5 (by decide) (by decide)⟩, ?_⟩
  · rw [inside 3 (by decide), bytes 3]
    rfl
  · rw [inside 1 (by decide), bytes 1]
    rfl
  · obtain ⟨start, slice, shown⟩ := starts h (.perform .zero (.store .half 2 0x0700))
    have same : h.memory.slice? 0 (min 6 4) = some [0, 0, 0, 7] := by decide +kernel
    rw [shown, Option.some.inj (slice.symm.trans same)]
    rfl

end Snapshot

end Rv32i
