import Rv32i.Text.Blank
import Rv32i.Text.Numeral

/-!
# Integer literals

A literal is an optional sign followed by a magnitude: decimal digits, `0x` and hexadecimal
digits, or `0b` and binary digits. The blanks around it are removed. A magnitude above
`2 ^ 63 - 1` is refused, with either sign.

* `magnitude?` reads the part after the sign;
* `literal?` reads the whole literal.
-/

namespace Rv32i

open Text

/-- The largest magnitude a literal may have. -/
def maxMagnitude : Nat :=
  2 ^ 63 - 1

/-- The number written by a radix mark and digits, without a bound. -/
def magnitude? : List Char → Option Nat
  | '0' :: 'x' :: digits | '0' :: 'X' :: digits => natOfDigits? 16 digits
  | '0' :: 'b' :: digits | '0' :: 'B' :: digits => natOfDigits? 2 digits
  | digits => natOfDigits? 10 digits

/-- The number written by a magnitude within the bound. -/
def boundedMagnitude? (cs : List Char) : Option Nat :=
  (magnitude? cs).filter (· ≤ maxMagnitude)

/-- The integer that a text writes. -/
def literal? (cs : List Char) : Option Int :=
  match trim cs with
  | '-' :: body => (boundedMagnitude? body).map fun n : Nat => -(n : Int)
  | '+' :: body => (boundedMagnitude? body).map fun n : Nat => (n : Int)
  | body => (boundedMagnitude? body).map fun n : Nat => (n : Int)

end Rv32i
