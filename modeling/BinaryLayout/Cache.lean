import BinaryLayout.Descriptor

/-!
# The cache of compiled formats

The formats compiled last, most recently used first. Each carries the number of the miss that
compiled it, by which two uses of one compilation can be told from two compilations.
-/
namespace BinaryLayout

/-- One compilation. -/
structure Compiled where
  descriptor : Text
  format : Format
  serial : Nat
  deriving DecidableEq, Repr

/-- Compiled formats by recency, and how often they were found. -/
structure Cache where
  entries : List Compiled
  hits : Nat
  misses : Nat
  deriving DecidableEq, Repr

namespace Cache

/-- How many formats are kept. -/
def capacity : Nat := 256

def empty : Cache := ⟨[], 0, 0⟩

/-- The kept compilation of a descriptor. -/
def find? (c : Cache) (descriptor : Text) : Option Compiled :=
  c.entries.find? fun e => e.descriptor = descriptor

/-- The found compilation becomes the most recent one. -/
def touch (c : Cache) (e : Compiled) : Cache :=
  { c with entries := e :: c.entries.erase e, hits := c.hits + 1 }

/-- A new compilation goes to the front and may push out the last one. -/
def insert (c : Cache) (descriptor : Text) (format : Format) : Cache :=
  { c with
    entries := (⟨descriptor, format, c.misses⟩ :: c.entries).take capacity
    misses := c.misses + 1 }

/-- A descriptor that is not valid is looked for in vain and leaves nothing behind. -/
def miss (c : Cache) : Cache := { c with misses := c.misses + 1 }

def size (c : Cache) : Nat := c.entries.length

end Cache

/-- What looking up a descriptor gives. -/
inductive Lookup where
  | hit (entry : Compiled) (cache : Cache)
  | compiled (entry : Compiled) (cache : Cache)
  | failed (fault : Fault) (cache : Cache)

/-- Look a descriptor up, compiling it if need be. -/
def Cache.lookUp (c : Cache) (descriptor : Text) : Lookup :=
  match c.find? descriptor with
  | some entry => .hit entry (c.touch entry)
  | none =>
    match Descriptor.compile descriptor with
    | .ok format => .compiled ⟨descriptor, format, c.misses⟩ (c.insert descriptor format)
    | .error fault => .failed fault c.miss

end BinaryLayout
