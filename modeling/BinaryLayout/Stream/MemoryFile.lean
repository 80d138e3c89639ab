import BinaryLayout.Allocation
import BinaryLayout.Attempt
import BinaryLayout.Buffer

/-!
# Files in memory

A file in memory is a run of bytes with a position. The storage of the bytes may be shared with
someone else who holds them; then it is copied before they change for the first time. Storage of
its own is moved when the file has to grow. If there is no room for the new storage, a copy is
not made and nothing is lost, but storage that was to be moved is gone, and the file is closed.
New storage is larger than what it is needed for, so that not every write needs more of it.
-/
namespace BinaryLayout

/-- A file in memory. -/
structure MemoryFile where
  data : Bytes
  /-- The size of the storage, which the data may not fill. -/
  capacity : Nat
  position : Nat
  /-- Someone else holds the storage too. What was read is not held any longer. -/
  shared : Bool
  closed : Bool
  deriving DecidableEq, Repr

namespace MemoryFile

/-- The file of bytes that nobody else holds. Only the storage of a single byte, or of none, is
the same for all who hold such a byte. -/
def ofBytes (data : Bytes) (position : Nat) : MemoryFile :=
  ⟨data, data.length, position, data.length ≤ 1, false⟩

/-- The file of the bytes of a buffer, whose holder keeps them. Bytes that do not change are
shared and all others are copied, with a byte of room behind them. -/
def ofBuffer (b : Buffer) : MemoryFile :=
  let shared := b.holding = .fixed || b.data.isEmpty
  ⟨b.data, if shared then b.data.length else b.data.length + 1, 0, shared, false⟩

/-- The size of new storage for so many bytes. Where the file grows by no more than an eighth of its
storage, it gets an eighth more than it needs. -/
def grownSize (capacity stop : Nat) : Nat :=
  if 8 * stop ≤ 9 * capacity then stop + stop / 8 + (if stop < 9 then 3 else 6) else stop + 1

/-- The size of the storage of a file that is written up to `stop`. -/
def capacityAt (m : MemoryFile) (stop : Nat) : Nat :=
  if m.capacity < stop then grownSize m.capacity stop
  else if m.shared then max stop m.data.length
  else m.capacity

/-- What a closed file is refused with. -/
def closedFault : Fault := .closedFile "I/O operation on closed file."

/-- At most `n` bytes from the position on. -/
def read (m : MemoryFile) (n : Nat) : Attempt MemoryFile Bytes :=
  if greatestSize < n then .refuse m .sizeTooLarge
  else if m.closed then .refuse m closedFault
  else
    let chunk := (m.data.drop m.position).take n
    ⟨.ok chunk, { m with position := m.position + chunk.length }⟩

/-- Put a chunk at the position. -/
def put (m : MemoryFile) (chunk : Bytes) : MemoryFile where
  data := m.data.overwrite m.position chunk
  capacity := m.capacityAt (m.position + chunk.length)
  position := m.position + chunk.length
  shared := false
  closed := false

/-- Why there is no new storage of the given size. -/
def refusal? [Host] (shared : Bool) (size : Int) : Option Fault :=
  if greatestSize < size then some (if shared then .negativeString else .negativeStorage)
  else if shared && greatestString < size then some .stringTooLarge
  else if Host.storage < size then some .outOfMemory
  else none

/-- Write a chunk. -/
def write [Host] (m : MemoryFile) (chunk : Bytes) : Attempt MemoryFile Unit :=
  let stop := m.position + chunk.length
  if m.closed then .refuse m closedFault
  else if chunk.isEmpty then ⟨.ok (), m⟩
  else if stop ≤ m.capacity then ⟨.ok (), m.put chunk⟩
  else if greatestSize < stop then .refuse m .bufferTooLarge
  else
    match refusal? m.shared (grownSize m.capacity stop) with
    | some fault => .refuse { m with closed := !m.shared } fault
    | none => ⟨.ok (), m.put chunk⟩

def tell (m : MemoryFile) : Attempt MemoryFile Int :=
  if m.closed then .refuse m closedFault else ⟨.ok m.position, m⟩

def seek (m : MemoryFile) (position : Int) : Attempt MemoryFile Int :=
  if ¬FitsWord position then .refuse m .positionTooLarge
  else if m.closed then .refuse m closedFault
  else if position < 0 then .refuse m (.negativeSeek position)
  else ⟨.ok position, { m with position := position.toNat }⟩

/-- Nothing is held back. -/
def flush (m : MemoryFile) : Attempt MemoryFile Unit :=
  if m.closed then .refuse m closedFault else ⟨.ok (), m⟩

theorem le_grownSize (capacity stop : Nat) : stop ≤ grownSize capacity stop := by
  unfold grownSize
  split <;> omega

/-- Storage of this size is as much as is ever asked for so many bytes. -/
def ample (stop : Nat) : Nat := stop + stop / 8 + 6

theorem grownSize_le_ample (capacity : Nat) {stop limit : Nat} (h : stop ≤ limit) :
    grownSize capacity stop ≤ ample limit := by
  have hpart : stop / 8 ≤ limit / 8 := Nat.div_le_div_right h
  unfold grownSize ample
  split
  · split <;> omega
  · omega

variable [Host]

theorem refusal?_eq_none {size : Int} (h : size ≤ Host.storage) (shared : Bool) :
    refusal? shared size = none := by
  have hstring := Host.storage_le_string
  have hlargest := Host.storage_le_size
  have h1 : ¬greatestSize < size := by omega
  have h2 : ¬greatestString < size := by omega
  have h3 : ¬(Host.storage : Int) < size := by omega
  simp [refusal?, h1, h2, h3]

/-- A chunk is written when there is storage of the size that the file has to grow to. -/
theorem write_of_le {m : MemoryFile} (ho : m.closed = false) {chunk : Bytes} (hc : chunk ≠ [])
    (h : grownSize m.capacity (m.position + chunk.length) ≤ Host.storage) :
    m.write chunk = ⟨.ok (), m.put chunk⟩ := by
  have hlargest := Host.storage_le_size
  have hgrown := le_grownSize m.capacity (m.position + chunk.length)
  have hsize : (grownSize m.capacity (m.position + chunk.length) : Int) ≤ Host.storage := by omega
  have h1 : ¬greatestSize < ((m.position + chunk.length : Nat) : Int) := by omega
  have h2 : chunk.isEmpty = false := by simp [hc]
  simp only [write, ho, h2, h1, refusal?_eq_none hsize, if_false, Bool.false_eq_true, ite_self]

end MemoryFile

end BinaryLayout
