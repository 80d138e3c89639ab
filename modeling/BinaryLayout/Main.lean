import BinaryLayout.CommandLine

/-!
# The program

Reads the file that is asked for, prints the dump and passes the log to the error output.
-/
namespace BinaryLayout.CommandLine

/-- The content of a file, or why it cannot be read. -/
def readData (path : Text) : IO (Except Fault Bytes) := do
  try
    let data ← IO.FS.readBinFile path.toString
    return .ok data.toList
  catch _ => return .error (.file (.notFound path))

/-- Print what a run shows and return its exit code. -/
def print (shown : Transcript) : IO UInt32 := do
  IO.print shown.output.toString
  IO.eprint shown.errors.toString
  match shown.ending with
  | .finished => return 0
  | .exit code => return UInt32.ofNat code
  | .failed fault => do
    IO.eprintln ((fault.message.getD []).toString)
    return 1

end BinaryLayout.CommandLine

/-- Run the program on the arguments it was started with. -/
def main (arguments : List String) : IO UInt32 := do
  let debug := (← IO.getEnv "DEBUG").isSome
  let program := (← IO.appPath).toString
  let texts := (program :: arguments).map BinaryLayout.Text.ofString
  BinaryLayout.CommandLine.print
    (← BinaryLayout.CommandLine.run texts BinaryLayout.CommandLine.readData debug)
