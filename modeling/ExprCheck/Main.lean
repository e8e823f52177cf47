import ExprCheck.CommandLine.Run

/-!
# The program

`main` runs the command that the arguments ask for on the files and the standard input of the
system.
-/

namespace ExprCheck

/-- Why the system could not read a file. -/
def readFailure : IO.Error → ReadFailure
  | .noFileOrDirectory .. => .notFound
  | .inappropriateType .. => .isDirectory
  | cause => .other (toString cause)

/-- The bytes of a file, or why there are none. -/
def readFile (path : String) : IO (Except ReadFailure ByteArray) := do
  try
    let bytes ← IO.FS.readBinFile path
    return .ok bytes
  catch cause =>
    return .error (readFailure cause)

/-- All bytes of the standard input. -/
def readStandardInput : IO (Except ReadFailure ByteArray) := do
  try
    let stdin ← IO.getStdin
    let bytes ← stdin.readBinToEnd
    return .ok bytes
  catch cause =>
    return .error (readFailure cause)

/-- What the system lets the command read. -/
def systemInputs : Inputs IO where
  file := readFile
  standard := readStandardInput

end ExprCheck

open ExprCheck

/-- The command, from its arguments to its exit code. -/
def main (arguments : List String) : IO UInt32 := do
  match Options.ofArguments arguments with
  | .error cause =>
    IO.eprintln cause.message
    return 2
  | .ok options =>
    let output ← options.runIn systemInputs
    IO.print output.stdout
    IO.eprint output.stderr
    return output.exitCode
