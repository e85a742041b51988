/-!
# JSON values

The values that states and records are exchanged as. An object keeps its members in order, and a
key may be repeated: whether that is an error is for the reader of the object to say.

A number is `int` if it is an integer of 64 bits written without fraction and exponent. Every
other number is kept as it was written, since nothing in this library takes one; and so is a string
that is no Unicode text, because it escapes a surrogate without its partner, and an object with such
a string for a key. They are values all the same: they may stand where nobody looks.
-/

namespace Rv32i

/-- A JSON value. -/
inductive Json
  | null
  | bool (value : Bool)
  | int (value : Int)
  /-- A number that is no integer of 64 bits, a string that is no text, or an object with a key
      that is none, as written. -/
  | raw (text : String)
  | str (text : String)
  | arr (items : List Json)
  | obj (members : List (String × Json))

namespace Json

/-- A natural number as a value. -/
def nat (n : Nat) : Json :=
  int n

/-- The value of a key that occurs at most once. The outer `none` stands for a repeated key, the
    inner one for a missing one. -/
def member? (members : List (String × Json)) (key : String) : Option (Option Json) :=
  match members.filter fun m => m.1 = key with
  | [] => some none
  | [(_, value)] => some (some value)
  | _ => none

/-- The integer, if the value is one within bounds, `high` excluded. -/
def intWithin? (low high : Int) : Json → Option Int
  | int n => if low ≤ n ∧ n < high then some n else none
  | _ => none

/-- The natural number below a bound, if the value is one. -/
def natBelow? (bound : Nat) (value : Json) : Option Nat :=
  (value.intWithin? 0 bound).map Int.toNat

end Json

end Rv32i
