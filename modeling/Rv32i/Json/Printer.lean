import Rv32i.Json.Value
import Rv32i.Text.Numeral

/-!
# Writing JSON

`Json.compact` writes a value without blanks, `Json.pretty` with one item or member a line and two
spaces a level; an empty array or object stays on its line.

In a string the quote, the backslash and the control characters below U+0020 are escaped, the
common ones by a letter and the others by four lower-case hexadecimal digits. Every other character
stands for itself.
-/

namespace Rv32i

open Text

namespace Json

/-! ## 1. Strings -/

/-- A character as it is written in a string. -/
def escape (c : Char) : List Char :=
  match c with
  | '"' => ['\\', '"']
  | '\\' => ['\\', '\\']
  | '\x08' => ['\\', 'b']
  | '\x0c' => ['\\', 'f']
  | '\n' => ['\\', 'n']
  | '\r' => ['\\', 'r']
  | '\t' => ['\\', 't']
  | c =>
    if c.toNat < 0x20 then '\\' :: 'u' :: (padLeft 4 '0' (hex c.toNat)).toList
    else [c]

/-- A string in quotes. -/
def quote (text : String) : String :=
  "\"" ++ String.ofList (text.toList.flatMap escape) ++ "\""

/-! ## 2. Without blanks -/

mutual

/-- The value, written without blanks. -/
def compact : Json → String
  | null => "null"
  | bool value => if value then "true" else "false"
  | int value => signed value
  | raw text => text
  | str text => quote text
  | arr items => "[" ++ ",".intercalate (compactItems items) ++ "]"
  | obj members => "\x7b" ++ ",".intercalate (compactMembers members) ++ "\x7d"

/-- The items of an array. -/
def compactItems : List Json → List String
  | [] => []
  | item :: items => item.compact :: compactItems items

/-- The members of an object. -/
def compactMembers : List (String × Json) → List String
  | [] => []
  | (key, value) :: members => (quote key ++ ":" ++ value.compact) :: compactMembers members

end

/-! ## 3. With indentation -/

/-- A new line at a level of indentation. -/
def newline (level : Nat) : String :=
  "\n" ++ String.ofList (List.replicate (2 * level) ' ')

mutual

/-- The value, written with indentation at a level. -/
def prettyAt (level : Nat) : Json → String
  | arr [] => "[]"
  | arr items =>
    "[" ++ ",".intercalate (prettyItems (level + 1) items) ++ newline level ++ "]"
  | obj [] => "\x7b\x7d"
  | obj members =>
    "\x7b" ++ ",".intercalate (prettyMembers (level + 1) members) ++ newline level ++ "\x7d"
  | null => "null"
  | bool value => if value then "true" else "false"
  | int value => signed value
  | raw text => text
  | str text => quote text

/-- The items of an array, each on a line of its own. -/
def prettyItems (level : Nat) : List Json → List String
  | [] => []
  | item :: items => (newline level ++ item.prettyAt level) :: prettyItems level items

/-- The members of an object, each on a line of its own. -/
def prettyMembers (level : Nat) : List (String × Json) → List String
  | [] => []
  | (key, value) :: members =>
    (newline level ++ quote key ++ ": " ++ value.prettyAt level) :: prettyMembers level members

end

/-- The value, written with indentation. -/
def pretty (value : Json) : String :=
  value.prettyAt 0

end Json

end Rv32i
