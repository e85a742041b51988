import Mathlib.Algebra.GroupWithZero.Nat
import Rv32i.Proofs.Machine.InPlace

/-!
# A memory is a map of bytes

Accesses of three widths overlap in every way. What they come to is a byte for each address, and
what can be said of a memory after any accesses needs nothing but the list of them:

* `Memory.Request.serve`: a load, a store or clearing, in place on the memory of a hart;
* `lastStored` is the byte stored most recently at an address, read off the requests, and
  `byte_leftBy` says that the memory holds it;
* `peekNat_eq_sum`: a value read is the sum of its bytes by place.

Requests stand newest first. The main statement is `memory_is_byte_map`.
-/

namespace Rv32i

namespace Memory

/-! ## 1. Requests -/

/-- What is asked of a memory. -/
inductive Request
  | load (width : Width) (addr : Word)
  /-- The low bytes of the value are stored. -/
  | store (width : Width) (addr value : Word)
  | clear
deriving DecidableEq

/-- The access lies at a multiple of its width, and inside a memory of the size. -/
def Granted (size : Nat) (width : Width) (addr : Word) : Prop :=
  width.bytes ∣ addr.toNat ∧ addr.toNat + width.bytes ≤ size

instance (size : Nat) (width : Width) (addr : Word) : Decidable (Granted size width addr) :=
  inferInstanceAs (Decidable (_ ∧ _))

/-- Why an access is refused that is not granted. That it is misaligned is said first. -/
def refusal (size : Nat) (width : Width) (addr : Word) : AccessFault :=
  if width.bytes ∣ addr.toNat then .outOfBounds addr width size else .misaligned addr width

/-- **An access is refused exactly if it is not granted**, for the reason that comes first. -/
theorem fault?_eq (m : Memory) (width : Width) (addr : Word) :
    m.fault? width addr =
      if Granted m.size width addr then none else some (refusal m.size width addr) := by
  by_cases granted : Granted m.size width addr
  · rw [if_pos granted, fault?_eq_none_iff]
    exact ⟨Nat.mod_eq_zero_of_dvd granted.1, granted.2⟩
  · rw [if_neg granted]
    unfold fault? refusal
    by_cases aligned : width.bytes ∣ addr.toNat
    · have whole : ¬ addr.toNat % width.bytes ≠ 0 := not_not_intro (Nat.mod_eq_zero_of_dvd aligned)
      have outside : m.size < addr.toNat + width.bytes :=
        Nat.lt_of_not_le fun inside => granted ⟨aligned, inside⟩
      rw [if_neg whole, if_pos outside, if_pos aligned]
    · have rest : addr.toNat % width.bytes ≠ 0 := fun whole =>
        aligned (Nat.dvd_of_mod_eq_zero whole)
      rw [if_pos rest, if_neg aligned]

namespace Request

/-- Where a request accesses the memory, and how many bytes of it. -/
def access? : Request → Option (Width × Word)
  | load width addr | store width addr _ => some (width, addr)
  | clear => none

/-- A request served in place. Only a load replies with a value. -/
def serve : Request → InPlace (Option Word)
  | load width addr => return some (← InPlace.load width addr)
  | store width addr value => do
    InPlace.store width addr value
    return none
  | clear => do
    modify fun h => { h with memory := h.memory.clear }
    return none

/-- The memory after a request that is granted. -/
def memoryAfter (m : Memory) : Request → Memory
  | load .. => m
  | store width addr value => m.poke width addr.toNat value
  | clear => m.clear

/-- What a request replies if it is granted. -/
def reply (m : Memory) : Request → Option Word
  | load width addr => some (m.peek width addr.toNat)
  | store .. | clear => none

variable {request : Request} {h : Hart} {width : Width} {addr : Word}

/-- **A granted access is served.** -/
theorem run_serve_of_granted (access : request.access? = some (width, addr))
    (granted : Granted h.memory.size width addr) :
    request.serve.run h =
      .ok (request.reply h.memory) { h with memory := request.memoryAfter h.memory } := by
  have noFault : h.memory.fault? width addr = none := (fault?_eq ..).trans (if_pos granted)
  cases request with
  | load =>
    cases access
    simp only [serve, EStateM.run_bind, InPlace.run_load, Memory.load, noFault]
    rfl
  | store =>
    cases access
    simp only [serve, EStateM.run_bind, InPlace.run_store, noFault]
    rfl
  | clear => cases access

/-- **An access that is not granted is refused**, without a change. -/
theorem run_serve_of_refused (access : request.access? = some (width, addr))
    (refused : ¬ Granted h.memory.size width addr) :
    request.serve.run h = .error (.access (refusal h.memory.size width addr)) h := by
  have fault : h.memory.fault? width addr = some (refusal h.memory.size width addr) :=
    (fault?_eq ..).trans (if_neg refused)
  cases request with
  | load =>
    cases access
    simp only [serve, EStateM.run_bind, InPlace.run_load, Memory.load, fault]
  | store =>
    cases access
    simp only [serve, EStateM.run_bind, InPlace.run_store, fault]
  | clear => cases access

/-- The hart that a request leaves, whether it is granted or refused. -/
def left (request : Request) (h : Hart) : Hart :=
  match request.serve.run h with
  | .ok _ after => after
  | .error _ after => after

/-- The hart that requests leave, the newest first. -/
def leftBy (requests : List Request) (h : Hart) : Hart :=
  requests.foldr left h

theorem left_of_granted (access : request.access? = some (width, addr))
    (granted : Granted h.memory.size width addr) :
    request.left h = { h with memory := request.memoryAfter h.memory } := by
  rw [left, run_serve_of_granted access granted]

theorem left_of_refused (access : request.access? = some (width, addr))
    (refused : ¬ Granted h.memory.size width addr) : request.left h = h := by
  rw [left, run_serve_of_refused access refused]

/-- **The size never changes.** -/
theorem size_left (request : Request) (h : Hart) :
    (request.left h).memory.size = h.memory.size := by
  cases request with
  | load width addr =>
    by_cases granted : Granted h.memory.size width addr
    · rw [left_of_granted rfl granted]
      rfl
    · rw [left_of_refused rfl granted]
  | store width addr value =>
    by_cases granted : Granted h.memory.size width addr
    · rw [left_of_granted rfl granted]
      exact size_poke ..
    · rw [left_of_refused rfl granted]
  | clear => rfl

theorem size_leftBy (requests : List Request) (size : Nat) :
    (leftBy requests (.zero size)).memory.size = size := by
  induction requests with
  | nil => rfl
  | cons request earlier ih => exact (size_left ..).trans ih

/-! ## 2. The bytes stored -/

/-- The bytes of a value by place, the lowest one first. -/
def byteOf (value : Word) (place : Nat) : Byte :=
  BitVec.ofNat 8 (value.toNat / 256 ^ place)

/-- **The byte stored most recently at an address** by a granted store that covers it, since the
    memory was last cleared; zero if there is none. The newest request stands first. -/
def lastStored (size a : Nat) : List Request → Byte
  | [] => 0
  | clear :: _ => 0
  | load .. :: earlier => lastStored size a earlier
  | store width addr value :: earlier =>
    if Granted size width addr ∧ addr.toNat ≤ a ∧ a < addr.toNat + width.bytes then
      byteOf value (a - addr.toNat)
    else lastStored size a earlier

/-- A store changes the bytes that it covers, if it is granted. -/
theorem byte_left_store (h : Hart) (width : Width) (addr value : Word) (a : Nat) :
    ((store width addr value).left h).memory.byte a =
      if Granted h.memory.size width addr ∧ addr.toNat ≤ a ∧ a < addr.toNat + width.bytes then
        byteOf value (a - addr.toNat)
      else h.memory.byte a := by
  by_cases granted : Granted h.memory.size width addr
  · have inside := granted.2
    rw [left_of_granted rfl granted]
    show (h.memory.pokeNat addr.toNat value.toNat width.bytes).byte a = _
    rw [byte_pokeNat]
    have covered : (addr.toNat ≤ a ∧ a < addr.toNat + width.bytes ∧ a < h.memory.size) ↔
        (Granted h.memory.size width addr ∧ addr.toNat ≤ a ∧ a < addr.toNat + width.bytes) :=
      ⟨fun ⟨le, lt, _⟩ => ⟨granted, le, lt⟩, fun ⟨_, le, lt⟩ => ⟨le, lt, by omega⟩⟩
    simp only [covered]
    rfl
  · rw [left_of_refused rfl granted, if_neg fun covered => granted covered.1]

/-- **The memory holds at every address the byte stored there most recently.** -/
theorem byte_leftBy (requests : List Request) (size a : Nat) :
    (leftBy requests (.zero size)).memory.byte a = lastStored size a requests := by
  induction requests with
  | nil => exact byte_zero size a
  | cons request earlier ih =>
    show (request.left (leftBy earlier (.zero size))).memory.byte a = _
    cases request with
    | load width addr =>
      by_cases granted : Granted (leftBy earlier (.zero size)).memory.size width addr
      · rw [left_of_granted rfl granted]
        exact ih
      · rw [left_of_refused rfl granted]
        exact ih
    | store width addr value =>
      rw [byte_left_store, size_leftBy, ih]
      rfl
    | clear => exact byte_zero _ a

end Request

/-! ## 3. The values read -/

/-- The byte at the highest address counts most. -/
theorem peekNat_succ (m : Memory) (addr n : Nat) :
    m.peekNat addr (n + 1) = m.peekNat addr n + (m.byte (addr + n)).toNat * 256 ^ n := by
  induction n generalizing addr with
  | zero => simp [peekNat]
  | succ n ih =>
    rw [peekNat, ih, peekNat, Nat.add_right_comm addr 1 n, Nat.mul_add, Nat.pow_succ,
      Nat.mul_left_comm, Nat.mul_comm 256 (256 ^ n), Nat.add_assoc, Nat.add_assoc]

/-- **A value read is the sum of its bytes by place.** -/
theorem peekNat_eq_sum (m : Memory) (addr n : Nat) :
    m.peekNat addr n =
      ((List.range n).map fun k => (m.byte (addr + k)).toNat * 256 ^ k).sum := by
  induction n with
  | zero => rfl
  | succ n ih =>
    rw [peekNat_succ, ih, List.range_succ, List.map_append, List.sum_append]
    simp

theorem toNat_peek (m : Memory) (width : Width) (addr : Nat) :
    (m.peek width addr).toNat = m.peekNat addr width.bytes := by
  have bound := m.peekNat_lt addr width.bytes
  have short : 256 ^ width.bytes ≤ 2 ^ 32 := by cases width <;> decide
  rw [peek, BitVec.toNat_ofNat, Nat.mod_eq_of_lt (Nat.lt_of_lt_of_le bound short)]

/-! ## 4. Requests and their answers -/

open Request

/-- **What is refused**: an access that is misaligned, or else one that is out of bounds. -/
theorem not_granted_iff {size : Nat} {width : Width} {addr : Word} {fault : Fault} :
    ¬ Granted size width addr ∧ fault = .access (refusal size width addr) ↔
      ¬ width.bytes ∣ addr.toNat ∧ fault = .access (.misaligned addr width) ∨
        width.bytes ∣ addr.toNat ∧ size < addr.toNat + width.bytes ∧
          fault = .access (.outOfBounds addr width size) := by
  unfold Granted refusal
  by_cases aligned : width.bytes ∣ addr.toNat
  · simp [aligned]
  · simp [aligned]

/-- **A memory is a little-endian map of bytes.** After any requests the size is what it was. An
    access is served exactly if it is aligned and lies in the memory. Otherwise it is refused and
    changes nothing; that it is misaligned is said before that it is out of bounds. A value loaded
    is the sum by place of the bytes stored most recently at its addresses. -/
theorem memory_is_byte_map (size : Nat) (past : List Request) :
    let h := leftBy past (.zero size)
    h.memory.size = size ∧
      ∀ (request : Request) (width : Width) (addr : Word),
        request.access? = some (width, addr) →
        ((∃ reply after, request.serve.run h = .ok reply after) ↔
          width.bytes ∣ addr.toNat ∧ addr.toNat + width.bytes ≤ size) ∧
        (∀ fault after, request.serve.run h = .error fault after ↔ after = h ∧
          (¬ width.bytes ∣ addr.toNat ∧ fault = .access (.misaligned addr width) ∨
            width.bytes ∣ addr.toNat ∧ size < addr.toNat + width.bytes ∧
              fault = .access (.outOfBounds addr width size))) ∧
        (∀ value, request = .store width addr value → ∀ reply after,
          request.serve.run h = .ok reply after →
            h.memory.store width addr value = .ok after.memory) ∧
        (request = .load width addr → ∀ reply after, request.serve.run h = .ok reply after →
          after = h ∧ ∃ word, reply = some word ∧ h.memory.load width addr = .ok word ∧
            word.toNat = ((List.range width.bytes).map fun k =>
              (lastStored size (addr.toNat + k) past).toNat * 256 ^ k).sum) := by
  intro h
  have size_eq : h.memory.size = size := size_leftBy past size
  refine ⟨size_eq, fun request width addr access => ?_⟩
  simp only [← not_granted_iff]
  by_cases granted : Granted size width addr
  · have served := run_serve_of_granted access (size_eq ▸ granted)
    have noFault := (h.memory.fault?_eq width addr).trans (if_pos (size_eq ▸ granted))
    rw [served]
    refine ⟨iff_of_true ⟨_, _, rfl⟩ granted, fun fault after => ?_, ?_, ?_⟩
    · refine iff_of_false ?_ fun refusal => refusal.2.1 granted
      rintro ⟨⟩
    · rintro value rfl _ _ ⟨⟩
      rw [Memory.store, noFault]
      rfl
    · rintro rfl _ _ ⟨⟩
      refine ⟨rfl, _, rfl, ?_, ?_⟩
      · rw [Memory.load, noFault]
      · simp only [toNat_peek, peekNat_eq_sum, h, byte_leftBy]
  · have refused := run_serve_of_refused access (size_eq ▸ granted)
    rw [refused, size_eq]
    refine ⟨iff_of_false ?_ granted, fun fault after => ?_, ?_, ?_⟩
    · rintro ⟨_, _, ⟨⟩⟩
    · simp only [EStateM.Result.error.injEq, granted, not_false_eq_true, true_and]
      constructor
      · rintro ⟨cause, same⟩
        exact ⟨same.symm, cause.symm⟩
      · rintro ⟨same, cause⟩
        exact ⟨cause.symm, same.symm⟩
    · rintro _ _ _ _ ⟨⟩
    · rintro _ _ _ ⟨⟩

/-- A word is stored, its upper half stored over, and three stores are refused: what was there
    before the memory was cleared is gone. -/
theorem memory_is_byte_map_overlapping :
    let past : List Request :=
      [.store .half 7 0xAAAA, .store .byte 8 0xBB, .store .word 2 0xCCCCCCCC,
        .store .half 6 0x1234BEEF, .load .word 4, .store .word 4 0x11223344, .clear,
        .store .word 0 0xFFFFFFFF]
    let h := leftBy past (.zero 8)
    (Request.load .word 4).serve.run h = .ok (some 0xBEEF3344) h ∧
      (Request.load .half 0).serve.run h = .ok (some 0) h ∧
      (Request.load .half 9).serve.run h = .error (.access (.misaligned 9 .half)) h ∧
      (Request.load .half 8).serve.run h = .error (.access (.outOfBounds 8 .half 8)) h := by
  intro past h
  obtain ⟨-, served⟩ := memory_is_byte_map 8 past
  refine ⟨?_, ?_, ?_, ?_⟩
  · obtain ⟨granted, -, -, loaded⟩ := served (.load .word 4) .word 4 rfl
    obtain ⟨reply, after, run⟩ := granted.mpr (by decide)
    obtain ⟨rfl, word, rfl, -, value⟩ := loaded rfl reply after run
    have same : word = 0xBEEF3344 := BitVec.eq_of_toNat_eq (value.trans (by decide))
    rw [run, same]
  · obtain ⟨granted, -, -, loaded⟩ := served (.load .half 0) .half 0 rfl
    obtain ⟨reply, after, run⟩ := granted.mpr (by decide)
    obtain ⟨rfl, word, rfl, -, value⟩ := loaded rfl reply after run
    have same : word = 0 := BitVec.eq_of_toNat_eq (value.trans (by decide))
    rw [run, same]
  · obtain ⟨-, refused, -⟩ := served (.load .half 9) .half 9 rfl
    exact (refused _ _).mpr ⟨rfl, .inl ⟨by decide, rfl⟩⟩
  · obtain ⟨-, refused, -⟩ := served (.load .half 8) .half 8 rfl
    exact (refused _ _).mpr ⟨rfl, .inr ⟨by decide, by decide, rfl⟩⟩

end Memory

end Rv32i
