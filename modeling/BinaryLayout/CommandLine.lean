import BinaryLayout.Dump
import BinaryLayout.Machine

/-!
# The command line

The program dumps one record of a file. Its arguments are a descriptor, the name of the file and
an optional offset, in decimal or with the mark of another base. A record that cannot be dumped
ends the program with a logged error. The machine that it runs on, and the way in which it writes
bits, are given with it.
-/
namespace BinaryLayout.CommandLine

/-- What the arguments ask for. -/
inductive Request where
  | dump (descriptor path : Text) (offset : Int)
  | usage (program : Text)
  deriving DecidableEq, Repr

/-- What is shown when the arguments are not right. -/
def usageText (program : Text) : Text :=
  .join ["usage: ", program, " <descriptor> <file> [offset]\n"]

/-- Read the arguments, of which the first one is the name of the program. -/
def parse (arguments : List Text) : Except Fault Request :=
  match arguments with
  | [_, descriptor, path] => .ok (.dump descriptor path 0)
  | [program, descriptor, path, offset] =>
    match Numeral.parse? offset with
    | some n => .ok (if n < 0 then .usage program else .dump descriptor path n)
    | none => .ok (.usage program)
  | program :: _ => .ok (.usage program)
  | [] => .error .noProgramName

/-- How a run of the program ends. -/
inductive Ending where
  | finished
  | exit (code : Nat)
  | failed (fault : Fault)

/-- What a run of the program shows. -/
structure Transcript where
  output : Text
  errors : Text
  ending : Ending

/-- The logged lines; those for debugging only if they are asked for. -/
def logText (debug : Bool) (log : List LogRecord) : Text :=
  .join ((log.filter fun r => debug || r.level = .error).map LogRecord.line)

/-- Dump a record of some data that was read from a file. -/
def dumpData [BitText] (descriptor path : Text) (data : Bytes) (offset : Int) (debug : Bool) :
    Transcript :=
  let (outcome, session) :=
    (Dump.dump (.text descriptor) (.ofBytes data) offset).run Session.empty
  match outcome with
  | .ok output => ⟨output, logText debug session.log, .finished⟩
  | .error fault =>
    if fault.isOwn then
      ⟨[], logText debug (session.log ++ [.dumpFailed path fault]), .exit 1⟩
    else ⟨[], logText debug session.log, .failed fault⟩

/-- Run the program on its arguments, with a way to read files. -/
def run [BitText] [Monad m] (arguments : List Text) (readFile : Text → m (Except Fault Bytes))
    (debug : Bool) : m Transcript :=
  match parse arguments with
  | .error fault => return ⟨[], [], .failed fault⟩
  | .ok (.usage program) => return ⟨usageText program, [], .exit 1⟩
  | .ok (.dump descriptor path offset) => do
    match ← readFile path with
    | .error fault => return ⟨[], [], .failed fault⟩
    | .ok data => return dumpData descriptor path data offset debug

end BinaryLayout.CommandLine
