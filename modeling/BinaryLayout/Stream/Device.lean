import BinaryLayout.Stream.MemoryFile
import BinaryLayout.Stream.TextFile

/-!
# Devices

What bytes are transferred to and from: a file in memory, a file that is opened as bytes or as
text, and a source or a sink that take part of a request at a time by a schedule. A device offers
some of five operations and refuses the others. A read that finds nothing and a write that takes
nothing are told by their empty result.
-/
namespace BinaryLayout

/-- The state of a device. A source and a sink remember what they were asked for. -/
inductive Device where
  | memory (m : MemoryFile)
  | source (data : Bytes) (position : Nat) (schedule : List (Option Nat)) (calls : List Nat)
  | sink (data : Bytes) (schedule : List (Option Nat)) (calls : List Nat)
  | file (f : BufferedFile)
  | text (t : TextFile)
  deriving DecidableEq, Repr

/-- What is read at once: bytes, or the characters of a text file. -/
inductive Chunk where
  | bytes (data : Bytes)
  | text (t : Text)
  deriving DecidableEq, Repr

namespace Chunk

def length : Chunk → Nat
  | .bytes data => data.length
  | .text t => t.length

/-- The bytes; characters are none. -/
def bytes? : Chunk → Except Fault Bytes
  | .bytes data => .ok data
  | .text _ => .error .textRead

/-- The bytes of chunks that were read one after the other. -/
def join (chunks : List Chunk) : Except Fault Bytes := (chunks.mapM bytes?).map List.flatten

end Chunk

namespace Device

variable [Host]

def kindName : Device → String
  | .memory _ => "BytesIO"
  | .source _ _ _ _ => "Reader"
  | .sink _ _ _ => "Writer"
  | .file _ => "BufferedRandom"
  | .text _ => "TextIOWrapper"

/-- An operation that a device does not have. -/
def missing (d : Device) (operation : String) : Attempt Device α :=
  .refuse d (.missingOperation d.kindName operation)

/-- What a schedule grants of a request. -/
def granted (schedule : List (Option Nat)) (request : Nat) : Nat :=
  match schedule with
  | [] => request
  | none :: _ => 0
  | some k :: _ => min k request

/-- Read at most `n` bytes; none at all means that there is nothing to read. -/
def read (d : Device) (n : Nat) : Attempt Device Chunk :=
  match d with
  | .memory m => ((m.read n).map .bytes).within .memory
  | .source data position schedule calls =>
    let chunk := (data.drop position).take (granted schedule n)
    ⟨.ok (.bytes chunk),
      .source data (position + chunk.length) schedule.tail (calls ++ [n])⟩
  | .sink _ _ _ => d.missing "read"
  | .file f => ((f.read n).map .bytes).within .file
  | .text t => ((t.read n).map .text).within .text

/-- Offer a chunk and learn how much of it was taken. -/
def write (d : Device) (chunk : Bytes) : Attempt Device Nat :=
  match d with
  | .memory m => ((m.write chunk).map fun _ => chunk.length).within .memory
  | .source _ _ _ _ => d.missing "write"
  | .sink data schedule calls =>
    let amount := granted schedule chunk.length
    ⟨.ok amount, .sink (data ++ chunk.take amount) schedule.tail (calls ++ [chunk.length])⟩
  | .file f => ((f.write chunk).map fun _ => chunk.length).within .file
  | .text _ => .refuse d .bytesWritten

def tell (d : Device) : Attempt Device Int :=
  match d with
  | .memory m => m.tell.within .memory
  | .file f => f.tell.within .file
  | .text t => t.tell.within .text
  | _ => d.missing "tell"

def seek (d : Device) (position : Int) : Attempt Device Int :=
  match d with
  | .memory m => (m.seek position).within .memory
  | .file f => (f.seek position).within .file
  | .text t => (t.seek position).within .text
  | _ => d.missing "seek"

def flush (d : Device) : Attempt Device Unit :=
  match d with
  | .memory m => m.flush.within .memory
  | .file f => f.flush.within .file
  | .text t => t.flush.within .text
  | _ => d.missing "flush"

/-- The file of a device, if it has one. -/
def file? : Device → Option BufferedFile
  | .file f => some f
  | .text t => some t.file
  | _ => none

/-- A file that is not used any more. -/
def close : Device → Device
  | .file f => .file f.close
  | .text t => .text t.close
  | d => d

/-- Read `remaining` of a request in as many reads as it takes. -/
def readRemaining (requested : Int) (remaining : Nat) (d : Device) :
    Attempt Device (List Chunk) :=
  if remaining = 0 then ⟨.ok [], d⟩
  else
    let first := d.read remaining
    match first.outcome with
    | .error fault => .refuse first.after fault
    | .ok chunk =>
      if _hc : chunk.length = 0 then
        .refuse first.after (Fault.truncatedStream requested (requested - remaining)).limited
      else
        (readRemaining requested (remaining - chunk.length) first.after).map (chunk :: ·)
termination_by remaining

/-- Read exactly `n` bytes; nothing is read for a request below one. -/
def readExactly (d : Device) (n : Int) : Attempt Device Bytes :=
  let a := d.readRemaining n n.toNat
  ⟨a.outcome.bind Chunk.join, a.after⟩

/-- Write what is left of `total` bytes in as many writes as it takes. -/
def writeRemaining (total : Nat) (rest : Bytes) (d : Device) : Attempt Device Unit :=
  if _he : rest = [] then ⟨.ok (), d⟩
  else
    let first := d.write rest
    match first.outcome with
    | .error fault => .refuse first.after fault
    | .ok count =>
      if count = 0 then
        .refuse first.after (.truncatedStream total (total - rest.length : Nat))
      else writeRemaining total (rest.drop count) first.after
termination_by rest.length
decreasing_by
  have := List.length_pos_iff.mpr _he
  simp only [List.length_drop]
  omega

/-- Write all of some data; the result is its length. -/
def writeAll (d : Device) (data : Bytes) : Attempt Device Nat :=
  (d.writeRemaining data.length data).map fun _ => data.length

end Device

end BinaryLayout
