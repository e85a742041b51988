/-!
# Numerals

Reading and writing numbers in a base. What is needed of numbers themselves is in front: `natPow`
and `intPow` say which powers are meant.

* `digitValue` gives the value of an ASCII digit of base sixteen, either case;
* `natOfDigits?` reads a non-empty run of digits of a base and refuses everything else;
* `decimal`, `signed` and `hex` write a number with the fewest digits, `padLeft` and `padRight`
  bring a text to a column width without ever cutting it.

Written digits are lower case.
-/

namespace Rv32i

/-! ## 1. Powers -/

/-- A power of a natural number is the core library's, whatever other powers are imported. -/
@[default_instance 20001] instance natPow : Pow Nat Nat := instPowNat

/-- A power of an integer is the core library's, whatever other powers are imported. -/
@[default_instance 20000] instance intPow : Pow Int Nat := instPowNat

namespace Text

/-! ## 2. Reading -/

/-- The value of an ASCII digit of base sixteen. -/
def digitValue (c : Char) : Option Nat :=
  if '0' ≤ c ∧ c ≤ '9' then some (c.toNat - 48)
  else if 'a' ≤ c ∧ c ≤ 'f' then some (c.toNat - 87)
  else if 'A' ≤ c ∧ c ≤ 'F' then some (c.toNat - 55)
  else none

/-- The value of a digit of the given base, which is at most sixteen. -/
def digit? (base : Nat) (c : Char) : Option Nat :=
  (digitValue c).filter (· < base)

/-- The number that a non-empty run of digits of the given base stands for. -/
def natOfDigits? (base : Nat) (cs : List Char) : Option Nat :=
  if cs.isEmpty then none
  else cs.foldlM (fun n c => (digit? base c).map (n * base + ·)) 0

/-! ## 3. Writing -/

/-- The decimal numeral of a natural number. -/
def decimal (n : Nat) : String :=
  String.ofList (Nat.toDigits 10 n)

/-- The hexadecimal numeral of a natural number, in lower case. -/
def hex (n : Nat) : String :=
  String.ofList (Nat.toDigits 16 n)

/-- The decimal numeral of an integer, with a minus sign in front of a negative one. -/
def signed (z : Int) : String :=
  if z < 0 then "-" ++ decimal z.natAbs else decimal z.natAbs

/-! ## 4. Columns -/

/-- The text with `fill` in front up to the given width. -/
def padLeft (width : Nat) (fill : Char) (s : String) : String :=
  String.ofList (List.replicate (width - s.length) fill) ++ s

/-- The text with spaces behind it up to the given width. -/
def padRight (width : Nat) (s : String) : String :=
  s ++ String.ofList (List.replicate (width - s.length) ' ')

end Text

end Rv32i
