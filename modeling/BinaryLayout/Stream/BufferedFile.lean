import BinaryLayout.Allocation
import BinaryLayout.Stream.Handle

/-!
# Buffered files

Between a file and its user is a window of one block. What is read ahead lies in it, and so does
what is written and not yet passed on; a cursor in the window is the position of the user. The
offset of the handle is somewhere else: the window remembers which of its places belongs to it.

The two can come apart for a file that is appended to. What is passed on goes to the end of such
a file, while the window still takes it for bytes at the cursor. So positions are not what the
file would tell, until the window is left or the handle is asked for its offset.
-/
namespace BinaryLayout

/-- A file with a window. -/
structure BufferedFile where
  handle : Handle
  closed : Bool
  /-- The bytes of the window, as far as any were put there. -/
  window : Bytes
  /-- The place in the window that is next to be read or written. -/
  cursor : Nat
  /-- Where the bytes end that can be read, if the window holds what is in the file. -/
  filled? : Option Nat
  /-- From where to where there are bytes to be passed on. -/
  unsaved? : Option (Nat × Nat)
  /-- The place in the window that belongs to the offset of the handle. -/
  anchor : Nat
  /-- What the offset of the handle is taken for. -/
  assumed : Nat
  deriving DecidableEq, Repr

namespace BufferedFile

variable [Host]

/-- The most bytes of a window. -/
def blockSize : Nat := 4096

/-- A file that nothing was done with yet. -/
def ofHandle (h : Handle) : BufferedFile := ⟨h, false, [], 0, none, none, 0, h.offset⟩

/-- There is something in the window. -/
def active (f : BufferedFile) : Bool := f.filled?.isSome || f.unsaved?.isSome

/-- How far the offset of the handle is ahead of the position. -/
def lead (f : BufferedFile) : Int := if f.active then f.anchor - f.cursor else 0

/-- How many bytes can be read from the window. -/
def available (f : BufferedFile) : Nat := (f.filled?.map (· - f.cursor)).getD 0

def moveHandle (f : BufferedFile) (distance : Int) : BufferedFile :=
  let h := f.handle.move distance
  { f with handle := h, assumed := h.offset }

/-- Pass a chunk on to the handle. -/
def passOn (f : BufferedFile) (chunk : Bytes) : BufferedFile :=
  { f with handle := f.handle.write chunk, assumed := f.assumed + chunk.length }

/-- Read from the handle. -/
def draw (f : BufferedFile) (n : Nat) : Bytes × BufferedFile :=
  let (chunk, h) := f.handle.read n
  (chunk, { f with handle := h, assumed := f.assumed + chunk.length })

/-- Pass on what was written. -/
def save (f : BufferedFile) : BufferedFile :=
  match f.unsaved? with
  | none => f
  | some (start, stop) =>
    if stop ≤ start then { f with unsaved? := none }
    else
      let f := if f.anchor = start then f else f.moveHandle (start - f.anchor)
      let f := f.passOn ((f.window.take stop).drop start)
      { f with anchor := stop, unsaved? := none }

/-- Pass on what was written, and leave the window if it can be read: then the offset of the
handle is the position. -/
def settle (f : BufferedFile) : BufferedFile :=
  let f := f.save
  if f.handle.readable then { f.moveHandle (-f.lead) with filled? := none } else f

/-- Pass on what was written before something is read. -/
def settleToRead (f : BufferedFile) : BufferedFile :=
  let f := if f.handle.writable then f.settle else f
  { f with filled? := none }

/-- Take bytes that can be read from the window. -/
def take (f : BufferedFile) (n : Nat) : Bytes × BufferedFile :=
  ((f.window.drop f.cursor).take n, { f with cursor := f.cursor + n })

/-- Read the last part of a request, which is less than a block: a whole block is drawn into the
window, unless nothing is missing. -/
def readBlock (f : BufferedFile) (n : Nat) : Bytes × BufferedFile :=
  let f := { f with cursor := 0, anchor := 0, filled? := some 0 }
  if n = 0 then ([], f)
  else
    let (chunk, f) := f.draw blockSize
    if chunk.isEmpty then ([], f)
    else
      let taken := chunk.take n
      (taken, { f with
        window := chunk
        cursor := taken.length
        anchor := chunk.length
        filled? := some chunk.length })

/-- Read what is not in the window: whole blocks straight from the handle, and the rest by the
block, unless the end of the file was met before. -/
def readThrough (f : BufferedFile) (n : Nat) : Bytes × BufferedFile :=
  let whole := n / blockSize * blockSize
  let (direct, f) := if whole = 0 then ([], f) else f.draw whole
  let missing := n - direct.length
  if blockSize ≤ missing then (direct, f)
  else
    let (last, f) := f.readBlock missing
    (direct ++ last, f)

/-- Read at most `n` bytes. -/
def read (f : BufferedFile) (n : Nat) : Attempt BufferedFile Bytes :=
  if !f.handle.readable then .refuse f (.unsupportedOperation "read")
  else if greatestSize < n then .refuse f .sizeTooLarge
  else if f.closed then .refuse f (.closedFile "read of closed file")
  else if n ≤ f.available then
    let (chunk, f) := f.take n
    ⟨.ok chunk, f⟩
  else
    match checkString n with
    | .error fault => .refuse f fault
    | .ok () =>
      let (first, f) := f.take f.available
      let (others, f) := f.settleToRead.readThrough (n - first.length)
      ⟨.ok (first ++ others), f⟩

/-- Read all that is left. What the handle reads then is not counted. -/
def readAll (f : BufferedFile) : Attempt BufferedFile Bytes :=
  if f.closed then .refuse f (.closedFile "read of closed file")
  else
    let (first, f) := f.take f.available
    let f := f.settleToRead
    let (others, h) := f.handle.read f.handle.content.length
    ⟨.ok (first ++ others), { f with handle := h }⟩

/-- Read at most `n` bytes, where one less than zero asks for all that is left. -/
def readSigned (f : BufferedFile) (n : Int) : Attempt BufferedFile Bytes :=
  if !f.handle.readable then .refuse f (.unsupportedOperation "read")
  else if 0 ≤ n then f.read n.toNat
  else if n = -1 then f.readAll
  else .refuse f .negativeRead

/-- Read at most `n` bytes by drawing from the handle at most once: what is in the window, or if
there is nothing, what comes next. -/
def readOnce (f : BufferedFile) (n : Nat) : Attempt BufferedFile Bytes :=
  if 0 < f.available then
    let (chunk, f) := f.take (min n f.available)
    ⟨.ok chunk, f⟩
  else
    match checkString n with
    | .error fault => .refuse f fault
    | .ok () =>
      let (chunk, f) := f.settleToRead.draw n
      ⟨.ok chunk, f⟩

/-- Put a chunk that has room there into the window. -/
def put (f : BufferedFile) (chunk : Bytes) : BufferedFile :=
  let stop := f.cursor + chunk.length
  { f with
    window := f.window.overwrite f.cursor chunk
    cursor := stop
    filled? := f.filled?.map (max stop)
    unsaved? := match f.unsaved? with
      | none => some (f.cursor, stop)
      | some (a, b) => some (min a f.cursor, max b stop) }

/-- Put a chunk into a window that has no room for it. What was in it is passed on first, and so
is the chunk if it is more than a block. -/
def putAnew (f : BufferedFile) (chunk : Bytes) : BufferedFile :=
  let f := f.save
  let f := if f.lead = 0 then f else { f.moveHandle (-f.lead) with anchor := f.cursor }
  let passed : Bool := blockSize < chunk.length
  let f := if passed then f.passOn chunk else f
  let rest := if passed then [] else chunk
  { f with
    window := rest
    cursor := rest.length
    filled? := none
    unsaved? := some (0, rest.length)
    anchor := 0 }

/-- Write all of a chunk. -/
def write (f : BufferedFile) (chunk : Bytes) : Attempt BufferedFile Unit :=
  if !f.handle.writable then .refuse f (.unsupportedOperation "write")
  else if f.closed then .refuse f (.closedFile "write to closed file")
  else
    let f := if f.active then f else { f with cursor := 0, anchor := 0 }
    let fits : Bool := chunk.length < blockSize ∧ f.cursor + chunk.length ≤ blockSize
    ⟨.ok (), if fits then f.put chunk else f.putAnew chunk⟩

def tell (f : BufferedFile) : Attempt BufferedFile Int :=
  if f.closed then .refuse f (.closedFile "I/O operation on closed file")
  else
    let f := { f with assumed := f.handle.offset }
    ⟨.ok (f.assumed - f.lead), f⟩

/-- Leave the window and go to a position. -/
def seekAway (f : BufferedFile) (position : Int) : Attempt BufferedFile Int :=
  let f := if f.handle.writable then f.save else f
  match f.handle.seek position with
  | .error fault => .refuse f fault
  | .ok h =>
    ⟨.ok position, { f with handle := h, assumed := h.offset, filled? := none }⟩

/-- Go to a position, in the window if it is there. -/
def seek (f : BufferedFile) (position : Int) : Attempt BufferedFile Int :=
  if f.closed then .refuse f (.closedFile "seek of closed file")
  else if ¬FitsWord position then .refuse f .offsetTooLarge
  else
    let distance := position - (f.assumed - f.lead)
    if 0 < f.available ∧ -(f.cursor : Int) ≤ distance ∧ distance ≤ f.available then
      ⟨.ok (f.assumed - f.available + distance),
        { f with cursor := (f.cursor + distance).toNat }⟩
    else f.seekAway position

def flush (f : BufferedFile) : Attempt BufferedFile Unit :=
  if f.handle.writable then
    if f.closed then .refuse f (.closedFile "flush of closed file") else ⟨.ok (), f.settle⟩
  else if f.closed then .refuse f (.closedFile "I/O operation on closed file.")
  else ⟨.ok (), f⟩

/-- A file that is not used any more. -/
def close (f : BufferedFile) : BufferedFile :=
  if f.closed then f
  else { if f.handle.writable then f.settle else f with closed := true }

end BufferedFile

end BinaryLayout
