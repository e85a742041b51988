import Mathlib.Algebra.GroupWithZero.Nat
import Rv32i.Machine.Effect

/-!
# Operations that may abort

Numbers, registers and texts have no limits here beyond those of their types. On a machine of 64
bits they have: registers are an array that is indexed with a byte, memory is an array of bytes,
counts and offsets are machine integers, text is UTF-8. An operation that leaves these limits is
no error that a caller could be told of; it aborts. In `Rv32i.Checked` every function is given
once more with these operations in it, and shown to come through with the same result.

* `Abort` lists the reasons, and `Guarded` is the type of what may abort or fail;
* `done` is what has come through. It carries the sequence of things that may fail over to things
  that may abort as well (`done_bind`), so a function that is built of parts that come through
  comes through;
* the operations are those on integers, on words, on arrays (`indexed`) and on UTF-8 text
  (`sliceFrom`, `sliceTo`).
-/

namespace Rv32i.Checked

/-! ## 1. Aborts -/

/-- Why an operation aborts. -/
inductive Abort
  /-- An index outside its array, or a range that is none of it. -/
  | index
  /-- A copy between ranges of different lengths. -/
  | length
  /-- A number outside its type. -/
  | overflow
  /-- A shift by the width of the type or more. -/
  | shift
  /-- A division by zero. -/
  | division
  /-- A text cut inside a character or past its end. -/
  | boundary
  /-- A stated precondition that does not hold. -/
  | assertion
deriving DecidableEq

/-- What may abort, and otherwise has a value or an error. -/
abbrev Guarded (ε α : Type) := ExceptT ε (Except Abort) α

/-- What has come through, with its value or error. -/
def done {ε α : Type} (x : Except ε α) : Guarded ε α :=
  ExceptT.mk (.ok x)

section

variable {ε δ α β : Type}

@[simp] theorem run_done (x : Except ε α) : (done x).run = .ok x :=
  rfl

@[simp] theorem done_ok (a : α) : done (.ok a : Except ε α) = pure a :=
  rfl

@[simp] theorem done_error (e : ε) : done (.error e : Except ε α) = throw e :=
  rfl

@[simp] theorem done_pure (a : α) : done (pure a : Except ε α) = pure a :=
  rfl

/-- **Parts that come through, one after the other, come through.** -/
theorem done_bind (x : Except ε α) (f : α → Except ε β) :
    done (x >>= f) = done x >>= fun a => done (f a) := by
  cases x <;> rfl

theorem adapt_done (f : ε → δ) (x : Except ε α) : (done x).adapt f = done (x.mapError f) :=
  rfl

/-- An operation that has no errors, in the middle of others. -/
@[simp] theorem lift_ok (a : α) : (liftM (Except.ok a : Except Abort α) : Guarded ε α) = pure a :=
  rfl

/-- Reading all of a list comes through if reading each of its members does. -/
theorem mapM_done {f : α → Guarded ε β} {g : α → Except ε β} {xs : List α}
    (each : ∀ x ∈ xs, f x = done (g x)) : xs.mapM f = done (xs.mapM g) := by
  induction xs with
  | nil => rfl
  | cons x xs ih =>
    rw [List.mapM_cons, List.mapM_cons, each x List.mem_cons_self,
      ih fun y mem => each y (List.mem_cons_of_mem _ mem)]
    simp only [done_bind, done_pure]

end

/-! ## 2. Integers -/

/-- A number as an unsigned integer of a width. -/
def unsigned (bits : Nat) (z : Int) : Except Abort Nat :=
  if 0 ≤ z ∧ z < 2 ^ bits then .ok z.toNat else .error .overflow

/-- A number as a signed integer of a width. -/
def integer (bits : Nat) (z : Int) : Except Abort Int :=
  if -2 ^ (bits - 1) ≤ z ∧ z < 2 ^ (bits - 1) then .ok z else .error .overflow

/-- An unsigned integer read as a signed one of 64 bits, which cannot abort but may change it. -/
def reinterpreted (n : Nat) : Int :=
  (n : Int).bmod (2 ^ 64)

/-- The quotient of signed integers of a width, rounded toward zero. -/
def quotient (bits : Nat) (a b : Int) : Except Abort Int :=
  if b = 0 then .error .division else integer bits (a.tdiv b)

/-- The quotient of unsigned integers. -/
def unsignedQuotient (a b : Nat) : Except Abort Nat :=
  if b = 0 then .error .division else .ok (a / b)

/-- The remainder of unsigned integers. -/
def unsignedRemainder (a b : Nat) : Except Abort Nat :=
  if b = 0 then .error .division else .ok (a % b)

/-- One, shifted left as a signed integer of 64 bits. The sign bit can be reached. -/
def powerOfTwo (exponent : Nat) : Except Abort Int :=
  if exponent < 64 then .ok ((2 ^ exponent : Int).bmod (2 ^ 64)) else .error .shift

theorem unsigned_natCast {bits n : Nat} (lt : n < 2 ^ bits) : unsigned bits n = .ok n := by
  have below : (n : Int) < 2 ^ bits := by exact_mod_cast lt
  rw [unsigned, if_pos ⟨Int.natCast_nonneg n, below⟩, Int.toNat_natCast]

theorem unsigned_pred {bits n : Nat} (positive : 1 ≤ n) (lt : n < 2 ^ bits) :
    unsigned bits ((n : Int) - 1) = .ok (n - 1) := by
  have less : (n : Int) - 1 = (n - 1 : Nat) := by omega
  rw [less]
  exact unsigned_natCast (Nat.lt_of_le_of_lt (Nat.sub_le n 1) lt)

theorem integer_of_mem {bits : Nat} {z : Int} (low : -2 ^ (bits - 1) ≤ z)
    (high : z < 2 ^ (bits - 1)) : integer bits z = .ok z :=
  if_pos ⟨low, high⟩

theorem reinterpreted_of_lt {n : Nat} (lt : n < 2 ^ 63) : reinterpreted n = n := by
  unfold reinterpreted
  apply Int.bmod_eq_of_le <;> omega

theorem powerOfTwo_of_lt {exponent : Nat} (lt : exponent < 63) :
    powerOfTwo exponent = .ok (2 ^ exponent) := by
  have small : (2 ^ exponent : Nat) < 2 ^ 63 := Nat.pow_lt_pow_right (by decide) lt
  have cast : (2 ^ exponent : Int) = ((2 ^ exponent : Nat) : Int) := by norm_cast
  rw [powerOfTwo, if_pos (Nat.lt_succ_of_lt lt), cast]
  exact congrArg Except.ok (reinterpreted_of_lt small)

/-! ## 3. Words -/

/-- A word shifted by an amount. -/
def shift (op : ShiftOp) (w : Word) (amount : Nat) : Except Abort Word :=
  if amount < 32 then .ok (op.apply w amount) else .error .shift

/-- The difference of words that are read as unsigned. -/
def difference (a b : Word) : Except Abort Word :=
  if b.toNat ≤ a.toNat then .ok (a - b) else .error .overflow

theorem shift_of_lt (op : ShiftOp) (w : Word) {amount : Nat} (lt : amount < 32) :
    shift op w amount = .ok (op.apply w amount) :=
  if_pos lt

/-! ## 4. Arrays -/

/-- The element of an array at an index. -/
def indexed {α : Type} {n : Nat} (xs : Vector α n) (i : Nat) : Except Abort α :=
  if h : i < n then .ok (xs[i]) else .error .index

theorem indexed_of_lt {α : Type} {n : Nat} (xs : Vector α n) {i : Nat} (lt : i < n) :
    indexed xs i = .ok (xs[i]) :=
  dif_pos lt

/-! ## 5. Text in UTF-8 -/

/-- The number of bytes of a text. -/
def byteLength (cs : List Char) : Nat :=
  (cs.map Char.utf8Size).sum

/-- The text from a byte offset on. -/
def sliceFrom : List Char → Nat → Except Abort (List Char)
  | cs, 0 => .ok cs
  | [], _ + 1 => .error .boundary
  | c :: cs, n + 1 =>
    if c.utf8Size ≤ n + 1 then sliceFrom cs (n + 1 - c.utf8Size) else .error .boundary

/-- The text up to a byte offset. -/
def sliceTo : List Char → Nat → Except Abort (List Char)
  | _, 0 => .ok []
  | [], _ + 1 => .error .boundary
  | c :: cs, n + 1 =>
    if c.utf8Size ≤ n + 1 then (sliceTo cs (n + 1 - c.utf8Size)).map (c :: ·)
    else .error .boundary

/-- The byte offset of the first character of a kind. -/
def offsetOf? (p : Char → Bool) : List Char → Option Nat
  | [] => none
  | c :: cs => if p c then some 0 else (offsetOf? p cs).map (c.utf8Size + ·)

@[simp] theorem byteLength_cons (c : Char) (cs : List Char) :
    byteLength (c :: cs) = c.utf8Size + byteLength cs := by
  simp [byteLength]

@[simp] theorem byteLength_append (cs ds : List Char) :
    byteLength (cs ++ ds) = byteLength cs + byteLength ds := by
  simp [byteLength]

/-- A text that is left of another takes no more bytes. -/
theorem byteLength_le_of_sublist {cs ds : List Char} (sub : List.Sublist cs ds) :
    byteLength cs ≤ byteLength ds := by
  induction sub with
  | slnil => exact Nat.le_refl _
  | cons c _ ih => rw [byteLength_cons]; omega
  | cons_cons c _ ih => rw [byteLength_cons, byteLength_cons]; omega

/-- A text has no more characters than bytes. -/
theorem length_le_byteLength (cs : List Char) : cs.length ≤ byteLength cs := by
  induction cs with
  | nil => exact Nat.le_refl _
  | cons c cs ih =>
    have positive := c.utf8Size_pos
    rw [List.length_cons, byteLength_cons]
    omega

/-- The length of a text with a character in front: never zero, and behind that character the
    length of the rest. -/
theorem byteLength_step (c : Char) (cs : List Char) :
    ∃ n, byteLength (c :: cs) = n + 1 ∧ c.utf8Size ≤ n + 1 ∧
      n + 1 - c.utf8Size = byteLength cs := by
  have positive := c.utf8Size_pos
  obtain ⟨n, size⟩ := Nat.exists_eq_add_one.mpr (Nat.add_pos_left positive (byteLength cs))
  rw [byteLength_cons]
  exact ⟨n, size, by omega, by omega⟩

/-- **A text can be cut from a place between two characters on.** -/
theorem sliceFrom_append (before after : List Char) :
    sliceFrom (before ++ after) (byteLength before) = .ok after := by
  induction before with
  | nil => cases after <;> rfl
  | cons c before ih =>
    obtain ⟨n, size, fits, rest⟩ := byteLength_step c before
    rw [size, List.cons_append, sliceFrom, if_pos fits, rest, ih]

/-- **A text can be cut up to a place between two characters.** -/
theorem sliceTo_append (before after : List Char) :
    sliceTo (before ++ after) (byteLength before) = .ok before := by
  induction before with
  | nil => cases after <;> rfl
  | cons c before ih =>
    obtain ⟨n, size, fits, rest⟩ := byteLength_step c before
    rw [size, List.cons_append, sliceTo, if_pos fits, rest, ih]
    rfl

end Rv32i.Checked
