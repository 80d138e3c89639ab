import BinaryLayout.Buffer
import BinaryLayout.Format
import BinaryLayout.Number.Binary

/-!
# Values

What callers hand over and get back: the values of fields, and everything that can be given in
their place and is refused. The only readings a field makes of a value are the integer, the
real number, the text and the bytes in it.
-/
namespace BinaryLayout

/-- A value of any kind. -/
inductive Value where
  | absent
  | bool (b : Bool)
  | int (n : Int)
  | real (x : Binary64)
  | text (t : Text)
  | buffer (b : Buffer)
  | list (items : List Value)
  | tuple (items : List Value)
  | format (f : Format)
  deriving Repr

namespace Value

def ofBytes (data : Bytes) : Value := .buffer (.whole .fixed data)

def kindName : Value → String
  | .absent => "NoneType"
  | .bool _ => "bool"
  | .int _ => "int"
  | .real _ => "float"
  | .text _ => "str"
  | .buffer b => b.holding.name
  | .list _ => "list"
  | .tuple _ => "tuple"
  | .format _ => "CompiledFormat"

/-- The integer of a value; the truth values count as one and zero. -/
def int? : Value → Option Int
  | .bool b => some (if b then 1 else 0)
  | .int n => some n
  | _ => none

/-- The single byte of a value: a byte string of length one, or a one-character text whose
character is a byte. -/
def byte? : Value → Option UInt8
  | .text [c] => if c.val < 0x100 then some (UInt8.ofNat c.val) else none
  | .buffer ⟨.fixed, _, [b], _⟩ => some b
  | .buffer ⟨.growable, _, [b], _⟩ => some b
  | _ => none

def buffer? : Value → Option Buffer
  | .buffer b => some b
  | _ => none

end Value

end BinaryLayout
