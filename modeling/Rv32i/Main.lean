import Rv32i.CommandLine.Perform

/-!
# The program

Hands the arguments, the environment and the files of the system to the command line, and what it
leaves behind to the output streams. Nothing is decided here.
-/

namespace Rv32i

/-- The cause with a number of the system, which may come negated, as a 32-bit word. -/
def ReadError.ofCode? (code : UInt32) : Option ReadError :=
  match min code.toNat (2 ^ 32 - code.toNat) with
  | 13 => some .permissionDenied
  | 20 => some .notDirectory
  | 21 => some .isDirectory
  | 36 => some .nameTooLong
  | _ => none

/-- The cause of an error of the system. -/
def ReadError.ofSystem (error : IO.Error) : ReadError :=
  let cause : Option ReadError := match error with
    | .noFileOrDirectory .. => some .notFound
    | .permissionDenied _ code _ | .inappropriateType _ code _ | .invalidArgument _ code _ =>
      ofCode? code
    | _ => none
  cause.getD (.other (toString error))

/-- The text of a file of the system. -/
def readSystemFile (file : String) : IO (Except ReadError String) := do
  try
    match String.fromUTF8? (← IO.FS.readBinFile file) with
    | some text => return .ok text
    | none => return .error .notText
  catch error => return .error (.ofSystem error)

end Rv32i

/-- The entry point. -/
def main (args : List String) : IO UInt32 := do
  let names := ["RVSIM_MEMORY_SIZE", "RVSIM_MAX_STEPS", "RVSIM_HISTORY_DEPTH"]
  let values ← names.mapM fun name => do return (name, ← IO.getEnv name)
  let env := fun name => (values.lookup name).join
  let stdout ← IO.getStdout
  let outcome ← Rv32i.performArgs Rv32i.readSystemFile (← stdout.isTty) env args
  IO.print outcome.stdout
  IO.eprint outcome.stderr
  return outcome.code.toUInt32
