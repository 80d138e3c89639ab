import BinaryLayout.Fault

/-!
# Modes

A mode says how a file is opened: for one of four ways of using it, with updating or without,
as bytes or as text. Every character of a mode says one of these things, and none may be said
twice.
-/
namespace BinaryLayout

/-- What a file is opened for. -/
inductive Access where
  | read
  /-- Write to a file that is empty at first. -/
  | write
  /-- Write to a file that was not there. -/
  | create
  | append
  deriving DecidableEq, Repr

/-- How a file is opened. -/
structure Mode where
  access? : Option Access
  update : Bool
  binary : Bool
  deriving DecidableEq, Repr

namespace Access

def letter : Access → Char
  | .read => 'r'
  | .write => 'w'
  | .create => 'x'
  | .append => 'a'

def all : List Access := [.create, .read, .write, .append]

/-- A file that is not there is made. -/
def creates (a : Access) : Bool := a ≠ .read

end Access

namespace Mode

def has (mode : Text) (c : Char) : Bool := mode.contains (CodePoint.ofChar c)

def letters : List Char := Access.all.map Access.letter ++ ['b', 't', '+']

/-- The characters of a mode are known and none is repeated. -/
def valid (mode : Text) : Bool :=
  mode.all (fun c => letters.any (CodePoint.ofChar · = c)) && decide mode.Nodup

/-- A mode asks for output by one of these characters. -/
def asksForOutput (mode : Text) : Bool := has mode 'w' || has mode '+'

/-- Read a mode, which need not ask for any way of using a file. -/
def parse (mode : Text) : Except FileFault Mode :=
  match Utf8.surrogateRun? mode with
  | some run => .error (.unencodable run)
  | none =>
    if has mode '\x00' then .error .nullInMode
    else if !valid mode then .error (.invalidMode mode)
    else if has mode 'b' && has mode 't' then .error .mixedMode
    else
      match Access.all.filter fun a => has mode a.letter with
      | [] => .ok ⟨none, has mode '+', has mode 'b'⟩
      | [a] => .ok ⟨some a, has mode '+', has mode 'b'⟩
      | _ => .error .severalModes

end Mode

end BinaryLayout
