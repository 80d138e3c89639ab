import BinaryLayout.Allocation
import BinaryLayout.Attempt

/-!
# File handles

A handle is an open file with an offset, from which on bytes are read and written. What is
written to a file that is appended to goes to its end, wherever the offset is. A file may become
larger than any memory; what it holds is not kept then.
-/
namespace BinaryLayout

/-- An open file. -/
structure Handle where
  name : Bytes
  readable : Bool
  writable : Bool
  appending : Bool
  content : Bytes
  /-- The file holds more than its content here. -/
  oversized : Bool
  offset : Nat
  deriving DecidableEq, Repr

namespace Handle

/-- At most `n` bytes from the offset on. -/
def read (h : Handle) (n : Nat) : Bytes × Handle :=
  let chunk := (h.content.drop h.offset).take n
  (chunk, { h with offset := h.offset + chunk.length })

def place (h : Handle) : Nat := if h.appending then h.content.length else h.offset

/-- Write a chunk. -/
def write [Host] (h : Handle) (chunk : Bytes) : Handle :=
  let stop := h.place + chunk.length
  if Host.storage < stop then { h with oversized := true, offset := stop }
  else { h with content := h.content.overwrite h.place chunk, offset := stop }

def seek [Host] (h : Handle) (offset : Int) : Except Fault Handle :=
  if offset < 0 ∨ Host.reach < offset then .error .invalidSeek
  else .ok { h with offset := offset.toNat }

/-- Go forth or, by a negative distance, back. -/
def move (h : Handle) (distance : Int) : Handle :=
  { h with offset := (h.offset + distance).toNat }

end Handle

end BinaryLayout
