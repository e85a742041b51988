import Rv32i.Options.Basic
import Rv32i.Text.Pieces

/-!
# Options files

An options file is a TOML document with the keys `memory_size`, `max_steps`, `history_depth` and
`memory_window`, each at most once and each with an integer. All other documents are refused, so
tables, dotted keys and values of other types need not be told apart: none of them can be part of
an accepted file, and every line can be read by itself.

* A line is blank, or `key = integer`, followed by a comment or nothing. Only spaces and tabs may
  stand between the parts. A carriage return is allowed in front of a line feed only.
* A key is bare, or a quoted string. Between double quotes a backslash escapes.
* An integer is decimal with an optional sign and no leading zeros, or has the mark `0x`, `0o` or
  `0b` and no sign. Single underscores may stand between digits. Its value is below `2 ^ 64`.
-/

namespace Rv32i

open Text

namespace OptionsFile

/-! ## 1. Blanks and comments -/

/-- Spaces and tabs separate the parts of a line. -/
def isSpace (c : Char) : Bool :=
  c = ' ' || c = '\t'

/-- The text from its first character that is no space or tab. -/
def skip (cs : List Char) : List Char :=
  cs.dropWhile isSpace

/-- A character that may stand in a comment or a string: no control character but the tab. -/
def isPrintable (c : Char) : Bool :=
  c = '\t' || (0x20 ≤ c.toNat && c.toNat ≠ 0x7F)

/-- Nothing more stands on the line than blanks and a comment. -/
def endsHere (cs : List Char) : Bool :=
  match skip cs with
  | [] => true
  | '#' :: comment => comment.all isPrintable
  | _ => false

/-! ## 2. Integers -/

/-- The digits of a run in which single underscores may stand between digits. -/
def ungroup? (isDigit : Char → Bool) : List Char → Option (List Char)
  | [] => none
  | [c] => if isDigit c then some [c] else none
  | c :: '_' :: cs => if isDigit c then (ungroup? isDigit cs).map (c :: ·) else none
  | c :: cs => if isDigit c then (ungroup? isDigit cs).map (c :: ·) else none

/-- The number written by a run of digits of a base. -/
def grouped? (base : Nat) (cs : List Char) : Option Nat := do
  let digits ← ungroup? (fun c => (digit? base c).isSome) cs
  natOfDigits? base digits

/-- A decimal number, without leading zeros. -/
def decimal? : List Char → Option Nat
  | ['0'] => some 0
  | '0' :: _ => none
  | cs => grouped? 10 cs

/-- An integer that is not negative. -/
def integer? (cs : List Char) : Option Nat :=
  let value := match cs with
    | '0' :: 'x' :: digits => grouped? 16 digits
    | '0' :: 'o' :: digits => grouped? 8 digits
    | '0' :: 'b' :: digits => grouped? 2 digits
    | '+' :: digits => decimal? digits
    | '-' :: digits => (decimal? digits).filter (· = 0)
    | digits => decimal? digits
  value.filter (· < 2 ^ 64)

/-! ## 3. Keys -/

/-- A character of a bare key. -/
def isBareKey (c : Char) : Bool :=
  c.isAlphanum || c = '_' || c = '-'

/-- The character written by hexadecimal digits, surrogates apart. -/
def scalar? (digits : List Char) : Option Char := do
  let n ← natOfDigits? 16 digits
  if n.isValidChar then return Char.ofNat n else none

/-- The characters of a quoted key up to its closing quote, and the rest of the line. -/
def quotedKey? (before : List Char) : List Char → Option (List Char × List Char)
  | '"' :: rest => some (before.reverse, rest)
  | '\\' :: 'b' :: rest => quotedKey? ('\x08' :: before) rest
  | '\\' :: 'e' :: rest => quotedKey? ('\x1b' :: before) rest
  | '\\' :: 't' :: rest => quotedKey? ('\t' :: before) rest
  | '\\' :: 'n' :: rest => quotedKey? ('\n' :: before) rest
  | '\\' :: 'f' :: rest => quotedKey? ('\x0c' :: before) rest
  | '\\' :: 'r' :: rest => quotedKey? ('\r' :: before) rest
  | '\\' :: '"' :: rest => quotedKey? ('"' :: before) rest
  | '\\' :: '\\' :: rest => quotedKey? ('\\' :: before) rest
  | '\\' :: 'x' :: a :: b :: rest => do
    let x ← scalar? [a, b]
    quotedKey? (x :: before) rest
  | '\\' :: 'u' :: a :: b :: c :: d :: rest => do
    let x ← scalar? [a, b, c, d]
    quotedKey? (x :: before) rest
  | '\\' :: 'U' :: a :: b :: c :: d :: e :: f :: g :: h :: rest => do
    let x ← scalar? [a, b, c, d, e, f, g, h]
    quotedKey? (x :: before) rest
  | '\\' :: _ => none
  | c :: rest => if isPrintable c then quotedKey? (c :: before) rest else none
  | [] => none

/-- A key, and the rest of the line. -/
def key? : List Char → Option (List Char × List Char)
  | '"' :: cs => quotedKey? [] cs
  | '\'' :: cs => do
    let (key, rest) ← cut (· = '\'') cs
    if key.all isPrintable then return (key, rest) else none
  | cs =>
    let key := cs.takeWhile isBareKey
    if key.isEmpty then none else some (key, cs.dropWhile isBareKey)

/-! ## 4. Files -/

/-- A line is nothing, or sets a key to an integer. -/
inductive Entry
  | blank
  | assign (key : String) (value : Nat)
deriving DecidableEq

/-- The entry that a line makes. -/
def entry? (line : List Char) : Option Entry :=
  if endsHere line then some .blank
  else do
    let (key, rest) ← key? (skip line)
    match skip rest with
    | '=' :: rest =>
      let rest := skip rest
      let isEnd := fun c => isSpace c || c = '#'
      let value ← integer? (rest.takeWhile fun c => !isEnd c)
      if endsHere (rest.dropWhile fun c => !isEnd c) then
        return .assign (String.ofList key) value
      else none
    | _ => none

/-- The lines of a file. A carriage return in front of a line feed is dropped, and so is a
    byte-order mark at the start. -/
def fileLines (text : List Char) : List (List Char) :=
  let text := match text with
    | '\ufeff' :: rest => rest
    | _ => text
  let ends := lines text
  ends.dropLast.map (fun line => if line.getLast? = some '\r' then line.dropLast else line) ++
    ends.drop (ends.length - 1)

/-- The value that the entries give a key, if any. -/
def valueOf? (entries : List Entry) (key : String) : Option Nat :=
  entries.findSome? fun
    | .assign k value => if k = key then some value else none
    | .blank => none

/-- The keys of a file, in order. -/
def keys (entries : List Entry) : List String :=
  entries.filterMap fun
    | .assign key _ => some key
    | .blank => none

/-- The options that a file sets, the others at their defaults. -/
def read? (text : String) : Option Options := do
  let entries ← (fileLines text.toList).mapM entry?
  let known := ["memory_size", "max_steps", "history_depth", "memory_window"]
  let ks := keys entries
  if (ks.all known.contains) && known.all (fun key => ks.count key ≤ 1) then
    let default : Options := {}
    return {
      memorySize := (valueOf? entries "memory_size").getD default.memorySize
      maxSteps := (valueOf? entries "max_steps").getD default.maxSteps
      historyDepth := (valueOf? entries "history_depth").getD default.historyDepth
      memoryWindow := (valueOf? entries "memory_window").getD default.memoryWindow }
  else none

end OptionsFile

end Rv32i
