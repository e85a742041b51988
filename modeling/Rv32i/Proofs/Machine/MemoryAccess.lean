import Rv32i.Machine.Memory

/-!
# Accesses, byte by byte

`Memory.peek` and `Memory.poke` recurse on the number of bytes. Here they are read through the
view `Memory.byte`:

* `byte_poke`: after a write the bytes of the access are those of the value, every other byte stays;
* `peek_byte`, `peek_half`, `peek_word`: a value read is its bytes, the one at the highest address
  in front;
* `fault?_eq_none_iff`: an access is granted exactly if it is aligned and lies in the memory.
-/

namespace Rv32i

namespace Memory

/-! ## 1. Writing -/

@[simp] theorem size_pokeNat (m : Memory) (addr value n : Nat) :
    (m.pokeNat addr value n).size = m.size := by
  induction n generalizing m addr value with
  | zero => rfl
  | succ n ih => rw [pokeNat, ih, size_setByte]

@[simp] theorem size_poke (m : Memory) (width : Width) (addr : Nat) (value : Word) :
    (m.poke width addr value).size = m.size :=
  size_pokeNat ..

/-- **Every byte after a write of `n` bytes.** Byte `k` of the value is the one at `addr + k`;
    what would fall outside the memory is dropped. -/
theorem byte_pokeNat (m : Memory) (addr value n a : Nat) :
    (m.pokeNat addr value n).byte a =
      if addr ≤ a ∧ a < addr + n ∧ a < m.size then BitVec.ofNat 8 (value / 256 ^ (a - addr))
      else m.byte a := by
  induction n generalizing m addr value with
  | zero =>
    have : ¬ (addr ≤ a ∧ a < addr + 0 ∧ a < m.size) := by omega
    rw [pokeNat, if_neg this]
  | succ n ih =>
    rw [pokeNat, ih, byte_setByte, size_setByte]
    by_cases here : a = addr
    · subst here
      have above : ¬ (a + 1 ≤ a ∧ a < a + 1 + n ∧ a < m.size) := by omega
      have within : (a ≤ a ∧ a < a + (n + 1) ∧ a < m.size) ↔ a < m.size := by omega
      simp only [above, within, if_false, true_and, Nat.sub_self, Nat.pow_zero, Nat.div_one]
    · have shift : (addr + 1 ≤ a ∧ a < addr + 1 + n ∧ a < m.size) ↔
          (addr ≤ a ∧ a < addr + (n + 1) ∧ a < m.size) := by omega
      simp only [shift, here, false_and, if_false]
      split
      · rename_i inside
        -- one byte further on, the value has lost its lowest byte
        have digit : value / 256 / 256 ^ (a - (addr + 1)) = value / 256 ^ (a - addr) := by
          rw [Nat.div_div_eq_div_mul, ← Nat.pow_succ']
          congr 2
          omega
        rw [digit]
      · rfl

/-- **Every byte after an access writes.** -/
theorem byte_poke (m : Memory) (width : Width) (addr : Nat) (value : Word) (a : Nat) :
    (m.poke width addr value).byte a =
      if addr ≤ a ∧ a < addr + width.bytes ∧ a < m.size then value.extractLsb' (8 * (a - addr)) 8
      else m.byte a := by
  rw [poke, byte_pokeNat]
  split
  · apply BitVec.eq_of_toNat_eq
    rw [BitVec.toNat_ofNat, BitVec.extractLsb'_toNat, Nat.shiftRight_eq_div_pow, Nat.pow_mul]
  · rfl

/-! ## 2. Reading -/

/-- A number read, byte by byte: what is read behind the first byte goes in front of it. -/
theorem ofNat_peekNat_succ (m : Memory) (addr n : Nat) :
    BitVec.ofNat (8 * n + 8) (m.peekNat addr (n + 1)) =
      BitVec.ofNat (8 * n) (m.peekNat (addr + 1) n) ++ m.byte addr := by
  apply BitVec.eq_of_toNat_eq
  have low := (m.byte addr).isLt
  rw [BitVec.toNat_ofNat, BitVec.toNat_append, BitVec.toNat_ofNat, peekNat,
    ← Nat.shiftLeft_add_eq_or_of_lt low, Nat.shiftLeft_eq, Nat.pow_add,
    Nat.mul_comm (2 ^ (8 * n)), Nat.mod_mul, Nat.add_mul_mod_self_left, Nat.mod_eq_of_lt low,
    Nat.add_mul_div_left _ _ (by decide), Nat.div_eq_of_lt low, Nat.zero_add, Nat.add_comm,
    Nat.mul_comm]

theorem ofNat_peekNat_one (m : Memory) (addr : Nat) :
    BitVec.ofNat 8 (m.peekNat addr 1) = m.byte addr := by
  rw [ofNat_peekNat_succ m addr 0]
  exact BitVec.zero_width_append ..

theorem ofNat_peekNat_two (m : Memory) (addr : Nat) :
    BitVec.ofNat 16 (m.peekNat addr 2) = m.byte (addr + 1) ++ m.byte addr := by
  rw [ofNat_peekNat_succ m addr 1, ofNat_peekNat_one]

theorem peekNat_lt (m : Memory) (addr n : Nat) : m.peekNat addr n < 256 ^ n := by
  induction n generalizing addr with
  | zero => simp [peekNat]
  | succ n ih =>
    have low := (m.byte addr).isLt
    have high := ih (addr + 1)
    rw [peekNat, Nat.pow_succ']
    omega

/-- A narrow value read is extended with zeros. -/
theorem ofNat_peekNat_eq_setWidth (m : Memory) (addr n : Nat) :
    BitVec.ofNat 32 (m.peekNat addr n) = (BitVec.ofNat (8 * n) (m.peekNat addr n)).setWidth 32 := by
  have bound := m.peekNat_lt addr n
  apply BitVec.eq_of_toNat_eq
  rw [BitVec.toNat_setWidth, BitVec.toNat_ofNat, BitVec.toNat_ofNat, Nat.pow_mul,
    Nat.mod_eq_of_lt bound]

theorem peek_byte (m : Memory) (addr : Nat) : m.peek .byte addr = (m.byte addr).setWidth 32 := by
  rw [peek, Width.bytes, ofNat_peekNat_eq_setWidth, ofNat_peekNat_one]

theorem peek_half (m : Memory) (addr : Nat) :
    m.peek .half addr = (m.byte (addr + 1) ++ m.byte addr).setWidth 32 := by
  rw [peek, Width.bytes, ofNat_peekNat_eq_setWidth, ofNat_peekNat_two]

/-- A loaded word is its four bytes. -/
theorem peek_word (m : Memory) (addr : Nat) :
    m.peek .word addr =
      m.byte (addr + 3) ++ m.byte (addr + 2) ++ m.byte (addr + 1) ++ m.byte addr := by
  rw [peek, Width.bytes, ofNat_peekNat_succ m addr 3, ofNat_peekNat_succ m (addr + 1) 2,
    ofNat_peekNat_two]

/-! ## 3. Granted accesses -/

/-- **An access is granted exactly if it is aligned and lies in the memory.** -/
theorem fault?_eq_none_iff {m : Memory} {width : Width} {addr : Word} :
    m.fault? width addr = none ↔
      addr.toNat % width.bytes = 0 ∧ addr.toNat + width.bytes ≤ m.size := by
  unfold fault?
  split
  · rename_i misaligned
    exact ⟨nofun, fun granted => absurd granted.1 misaligned⟩
  · rename_i aligned
    have whole : addr.toNat % width.bytes = 0 := Decidable.not_not.mp aligned
    split
    · rename_i outside
      exact ⟨nofun, fun granted => absurd granted.2 (Nat.not_le_of_lt outside)⟩
    · rename_i inside
      exact ⟨fun _ => ⟨whole, Nat.le_of_not_lt inside⟩, fun _ => rfl⟩

end Memory

end Rv32i
