import Rv32i.Files.ReadError

/-!
# Trees of files

A tree of files as a value, and what reading a path finds in it. Commands take any reader of files,
so over a tree they are functions.

* A `Place` is the way from the root to a file or directory, by names.
* `FileTree.follow` walks a path: an empty name and `.` stay, `..` goes up, and every other name has
  to be there. The first name that leads nowhere is the error.
* `FileTree.read` reads the file that a path leads to.
-/

namespace Rv32i

/-- The names on the way from the root. -/
abbrev Place := List String

/-- Directories, besides the root, and files with their texts. -/
structure FileTree where
  directories : List Place
  files : List (Place × String)

namespace FileTree

/-- The longest name, in bytes. -/
def maxName : Nat :=
  255

/-- The longest path, in bytes. -/
def maxPath : Nat :=
  4095

/-- The text of the file at a place. -/
def text? (tree : FileTree) (place : Place) : Option String :=
  tree.files.lookup place

/-- A directory is at the place. -/
def isDirectory (tree : FileTree) (place : Place) : Bool :=
  place.isEmpty || tree.directories.contains place

/-- The place that names lead to from a place. -/
def follow (tree : FileTree) (place : Place) : List String → Except ReadError Place
  | [] => .ok place
  | name :: names =>
    if !tree.isDirectory place then .error .notDirectory
    else if name = "" ∨ name = "." then tree.follow place names
    else if name = ".." then tree.follow place.dropLast names
    else if maxName < name.utf8ByteSize then .error .nameTooLong
    else
      let next := place ++ [name]
      if tree.isDirectory next || (tree.text? next).isSome then tree.follow next names
      else .error .notFound

/-- The names of a path, which stand between its slashes. -/
def names (path : String) : List String :=
  (path.toList.splitOn '/').map String.ofList

/-- The text of the file that a path leads to from a working directory. -/
def read (tree : FileTree) (workingDirectory : Place) (path : String) : Except ReadError String :=
  if path.isEmpty then .error .notFound
  else if maxPath < path.utf8ByteSize then .error .nameTooLong
  else do
    let start := if path.startsWith '/' then [] else workingDirectory
    let place ← tree.follow start (names path)
    match tree.text? place with
    | some text => return text
    | none => .error .isDirectory

end FileTree

end Rv32i
