import Rv32i.Json.Value
import Rv32i.Text.Numeral

/-!
# Reading JSON

`Json.read?` reads a text that is one JSON value with blanks around it, and refuses any other text.
Each reader below takes something off the front of the text and returns the rest.

* Blanks are the space, the tab, the line feed and the carriage return.
* A number has no leading zeros and no plus sign; `-0` is no integer.
* A string holds no control characters. An escaped surrogate without its partner is allowed, but
  makes the string no text.

Values are read from left to right with the containers that are still open at hand (`Frame`),
innermost first, so a text may nest as deeply as it likes. Each value that is opened takes one from
a budget that the length of the text covers.
-/

namespace Rv32i

open Text

namespace Json

/-! ## 1. Blanks and numbers -/

/-- The blanks of the format. -/
def isSpace (c : Char) : Bool :=
  c = ' ' || c = '\t' || c = '\n' || c = '\r'

/-- The text from its first character that is not a blank. -/
def skip (cs : List Char) : List Char :=
  cs.dropWhile isSpace

/-- What was read of a text, given its rest. -/
def written (cs rest : List Char) : String :=
  String.ofList (cs.take (cs.length - rest.length))

/-- A non-empty run of digits. -/
def digits? (cs : List Char) : Option (List Char × List Char) :=
  let ds := cs.takeWhile Char.isDigit
  if ds.isEmpty then none else some (ds, cs.dropWhile Char.isDigit)

/-- What follows a fraction, which may be missing. -/
def fraction? : List Char → Option (List Char)
  | '.' :: cs => (digits? cs).map (·.2)
  | cs => some cs

/-- What follows an exponent, which may be missing. -/
def exponent? : List Char → Option (List Char)
  | 'e' :: '+' :: cs | 'e' :: '-' :: cs | 'e' :: cs => (digits? cs).map (·.2)
  | 'E' :: '+' :: cs | 'E' :: '-' :: cs | 'E' :: cs => (digits? cs).map (·.2)
  | cs => some cs

/-- The number written by a sign and digits, if it is an integer of 64 bits. -/
def integer? (negative : Bool) (ds : List Char) : Option Int :=
  match natOfDigits? 10 ds with
  | none => none
  | some n =>
    if negative then if n ≠ 0 ∧ n ≤ 2 ^ 63 then some (-(n : Int)) else none
    else if n < 2 ^ 64 then some n else none

/-- A number. -/
def number? (cs : List Char) : Option (Json × List Char) := do
  let (negative, unsigned) := match cs with
    | '-' :: cs => (true, cs)
    | cs => (false, cs)
  let (ds, behind) ← digits? unsigned
  if ds.length > 1 ∧ ds.head? = some '0' then none
  let rest ← exponent? (← fraction? behind)
  let whole := match behind with
    | '.' :: _ | 'e' :: _ | 'E' :: _ => none
    | _ => integer? negative ds
  match whole with
  | some n => return (int n, rest)
  | none => return (raw (written cs rest), rest)

/-! ## 2. Strings -/

/-- A code point behind others (last one first). A low surrogate behind a high one completes it. -/
def pushPoint (point : Nat) : List Nat → List Nat
  | high :: before =>
    if 0xD800 ≤ high ∧ high < 0xDC00 ∧ 0xDC00 ≤ point ∧ point < 0xE000 then
      (0x10000 + (high - 0xD800) * 0x400 + (point - 0xDC00)) :: before
    else point :: high :: before
  | [] => [point]

/-- The character that a letter behind a backslash stands for. -/
def escaped? : Char → Option Char
  | '"' => some '"'
  | '\\' => some '\\'
  | '/' => some '/'
  | 'b' => some '\x08'
  | 'f' => some '\x0c'
  | 'n' => some '\n'
  | 'r' => some '\r'
  | 't' => some '\t'
  | _ => none

/-- The code points up to the closing quote, behind those read before (last one first). -/
def points? (before : List Nat) : List Char → Option (List Nat × List Char)
  | '"' :: rest => some (before.reverse, rest)
  | '\\' :: 'u' :: a :: b :: c :: d :: rest => do
    let point ← natOfDigits? 16 [a, b, c, d]
    points? (pushPoint point before) rest
  | '\\' :: c :: rest => do
    let c ← escaped? c
    points? (c.toNat :: before) rest
  | c :: rest =>
    if c.toNat < 0x20 ∨ c = '\\' then none else points? (c.toNat :: before) rest
  | [] => none

/-- A string behind its opening quote; no text if a surrogate is left in it. -/
def string? (cs : List Char) : Option (Option String × List Char) := do
  let (points, rest) ← points? [] cs
  if points.all Nat.isValidChar then return (String.ofList (points.map Char.ofNat), rest)
  else return (none, rest)

/-! ## 3. Containers -/

/-- An open container whose next value is being read, with what it holds before (last one first). -/
inductive Frame
  | items (before : List Json)
  /-- An object, with its text from the opening brace on and the key of the value. -/
  | members (text : List Char) (before : List (Option String × Json)) (key : Option String)

/-- The object with members, if its keys are texts; else its text up to the rest. -/
def object (members : List (Option String × Json)) (text rest : List Char) : Json :=
  match members.mapM fun (key, value) => key.map (·, value) with
  | some members => obj members
  | none => raw (written text rest)

/-- A key with the colon behind it. -/
def key? (cs : List Char) : Option (Option String × List Char) :=
  match skip cs with
  | '"' :: rest => do
    let (key, rest) ← string? rest
    match skip rest with
    | ':' :: rest => return (key, rest)
    | _ => none
  | _ => none

/-- Where reading stands behind a value. -/
inductive Progress
  /-- The outermost value is complete. -/
  | done (value : Json) (rest : List Char)
  /-- A value is wanted in the containers. -/
  | more (frames : List Frame) (rest : List Char)

/-- Puts a value into the innermost container, and closes the containers that end behind it. -/
def close? (value : Json) : List Frame → List Char → Option Progress
  | [], rest => some (.done value rest)
  | .items before :: frames, cs =>
    match skip cs with
    | ',' :: rest => some (.more (.items (value :: before) :: frames) rest)
    | ']' :: rest => close? (arr (value :: before).reverse) frames rest
    | _ => none
  | .members text before key :: frames, cs =>
    let before := (key, value) :: before
    match skip cs with
    | ',' :: rest =>
      (key? rest).map fun (key, rest) => .more (.members text before key :: frames) rest
    | '}' :: rest => close? (object before.reverse text rest) frames rest
    | _ => none

/-! ## 4. Values -/

/-- A value that is no container. -/
def scalar? : List Char → Option (Json × List Char)
  | 'n' :: 'u' :: 'l' :: 'l' :: rest => some (null, rest)
  | 't' :: 'r' :: 'u' :: 'e' :: rest => some (bool true, rest)
  | 'f' :: 'a' :: 'l' :: 's' :: 'e' :: rest => some (bool false, rest)
  | '"' :: cs => (string? cs).map fun
    | (some text, rest) => (str text, rest)
    | (none, rest) => (raw (written ('"' :: cs) rest), rest)
  | cs => number? cs

/-- Opens a container, or reads a value that is none and puts it into the innermost one. -/
def open? (frames : List Frame) (cs : List Char) : Option Progress :=
  match skip cs with
  | '[' :: rest =>
    match skip rest with
    | ']' :: rest => close? (arr []) frames rest
    | _ => some (.more (.items [] :: frames) rest)
  | '{' :: rest =>
    match skip rest with
    | '}' :: rest => close? (obj []) frames rest
    | _ =>
      (key? rest).map fun (key, behind) => .more (.members ('{' :: rest) [] key :: frames) behind
  | cs => (scalar? cs).bind fun (value, rest) => close? value frames rest

/-- The outermost value, of which a part in the innermost container is read next. -/
def value? (frames : List Frame) : Nat → List Char → Option (Json × List Char)
  | 0, _ => none
  | budget + 1, cs =>
    match open? frames cs with
    | some (.done value rest) => some (value, rest)
    | some (.more frames rest) => value? frames budget rest
    | none => none

/-- The value that a text writes. -/
def read? (text : String) : Option Json :=
  let cs := text.toList
  match value? [] (cs.length + 1) cs with
  | some (value, rest) => if (skip rest).isEmpty then some value else none
  | none => none

end Json

end Rv32i
