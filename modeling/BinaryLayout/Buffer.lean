import BinaryLayout.Bytes

/-!
# Buffers

A buffer is a run of bytes inside its underlying storage. How it is held decides whether it can
be written to and whether a write past its end makes it grow.
-/
namespace BinaryLayout

/-- How a run of bytes is held. -/
inductive Holding where
  | fixed
  | growable
  | view (readOnly : Bool)
  deriving DecidableEq, Repr

def Holding.name : Holding → String
  | .fixed => "bytes"
  | .growable => "bytearray"
  | .view _ => "memoryview"

def Holding.readOnly : Holding → Bool
  | .fixed => true
  | .growable => false
  | .view readOnly => readOnly

/-- Bytes with the storage around them; only a view has any. -/
structure Buffer where
  holding : Holding
  before : Bytes
  data : Bytes
  after : Bytes
  deriving DecidableEq, Repr

structure Write where
  offset : Nat
  raw : Bytes
  deriving DecidableEq, Repr

namespace Buffer

/-- A buffer that is the whole of its storage. -/
def whole (holding : Holding) (data : Bytes) : Buffer := ⟨holding, [], data, []⟩

/-- A look at bytes that are not to be changed. -/
def ofBytes (data : Bytes) : Buffer := whole (.view true) data

/-- The window from one place of a growable storage to another. -/
def window (storage : Bytes) (start stop : Int) (readOnly : Bool) : Buffer :=
  let first := Bytes.place storage.length start
  let last := max first (Bytes.place storage.length stop)
  ⟨.view readOnly, storage.take first, (storage.take last).drop first, storage.drop last⟩

def content (b : Buffer) : Bytes := b.before ++ b.data ++ b.after

/-- Put bytes into the buffer. A view keeps its length and refuses bytes that go past its end,
all other storage grows. -/
def write? (b : Buffer) (w : Write) : Option Buffer :=
  match b.holding with
  | .view _ =>
    if w.raw = [] ∨ w.offset + w.raw.length ≤ b.data.length then
      some { b with data := b.data.splice w.offset w.raw }
    else none
  | _ => some { b with data := b.data.splice w.offset w.raw }

/-- Writes that were made, and whether all of them were. -/
structure Written where
  buffer : Buffer
  complete : Bool
  deriving DecidableEq, Repr

/-- Make the writes in order, up to the first one that is refused. -/
def writeAll (b : Buffer) : List Write → Written
  | [] => ⟨b, true⟩
  | w :: rest =>
    match b.write? w with
    | some b' => writeAll b' rest
    | none => ⟨b, false⟩

end Buffer

end BinaryLayout
