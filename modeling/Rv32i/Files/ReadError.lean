/-!
# Why a file cannot be read

A `ReadError` is the cause; `ReadError.message` is the wording of the system, with its number.
-/

namespace Rv32i

/-- Why a file cannot be read. -/
inductive ReadError
  | notFound
  | permissionDenied
  | notDirectory
  | isDirectory
  | nameTooLong
  /-- The bytes of the file are no UTF-8 text. -/
  | notText
  | other (message : String)
deriving DecidableEq

/-- The wording of a read error. -/
def ReadError.message : ReadError → String
  | notFound => "No such file or directory (os error 2)"
  | permissionDenied => "Permission denied (os error 13)"
  | notDirectory => "Not a directory (os error 20)"
  | isDirectory => "Is a directory (os error 21)"
  | nameTooLong => "File name too long (os error 36)"
  | notText => "stream did not contain valid UTF-8"
  | other message => message

end Rv32i
