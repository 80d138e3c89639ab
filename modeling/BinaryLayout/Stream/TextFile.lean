import BinaryLayout.Number.Binary
import BinaryLayout.Stream.BufferedFile
import BinaryLayout.Stream.TextDecoder

/-!
# Text files

A file that is opened as text is read in characters. Its bytes are drawn in chunks and decoded
ahead, so that the position of the reader lies between two states of the decoder. A position is
told as a mark: where the decoder can start anew, in which state, how many bytes it has to be fed
from there, and how many characters of what it gives were already read. The search for such a
place starts at a guess, by how many bytes a character took in the last chunk.
-/
namespace BinaryLayout

/-- A position in a text file. -/
structure TextMark where
  start : Int
  flags : Nat
  bytesToFeed : Int
  charactersToSkip : Int
  atEnd : Bool
  deriving DecidableEq, Repr

/-- Where the decoder was when a chunk was drawn, and the bytes that it was to decode then. -/
structure Snapshot where
  flags : Nat
  input : Bytes
  deriving DecidableEq, Repr

/-- A file that is read as text. There is no decoder for a file that can only be written to. -/
structure TextFile where
  file : BufferedFile
  decoder? : Option TextDecoder
  decoded : Text
  /-- How many of the decoded characters were read. A mark can set it below zero. -/
  used : Int
  snapshot? : Option Snapshot
  /-- The pattern of the number of bytes for a character, as a double-precision number. -/
  ratio : Nat
  deriving DecidableEq, Repr

namespace TextMark

/-- Marks are numbers below this one. -/
def bound : Nat := 2 ^ 168

/-- The number of a mark: its parts in fields of 64, three times 32 and eight bits. All but the
flags have a sign. -/
def toNat (m : TextMark) : Nat :=
  (m.start % 2 ^ 64).toNat + 2 ^ 64 * m.flags + 2 ^ 96 * (m.bytesToFeed % 2 ^ 32).toNat +
    2 ^ 128 * (m.charactersToSkip % 2 ^ 32).toNat + (if m.atEnd then 2 ^ 160 else 0)

def ofNat (n : Nat) : TextMark where
  start := (n : Int).bmod (2 ^ 64)
  flags := n / 2 ^ 64 % 2 ^ 32
  bytesToFeed := ((n / 2 ^ 96 : Nat) : Int).bmod (2 ^ 32)
  charactersToSkip := ((n / 2 ^ 128 : Nat) : Int).bmod (2 ^ 32)
  atEnd := n / 2 ^ 160 ≠ 0

/-- The state of the decoder at a mark. -/
def decoder (m : TextMark) : TextDecoder := ⟨[], m.flags % 2 = 1⟩

end TextMark

namespace TextFile

variable [Host]

/-- A file that nothing was done with yet. -/
def ofFile (f : BufferedFile) : TextFile :=
  ⟨f, if f.handle.readable then some .empty else none, [], 0, none, 0⟩

/-- What a closed text file is refused with. -/
def closedFault : Fault := .closedFile "I/O operation on closed file."

/-- The least number of bytes that are asked for at once. -/
def chunkSize : Nat := 8192

/-- The state of a decoder as a number. -/
def flagsOf (d : TextDecoder) : Nat := if d.pendingReturn then 1 else 0

/-- How many bytes are asked for when so many characters are missing. A number that is too large
to be counted is as good as none. -/
def request (t : TextFile) (missing : Nat) : Nat :=
  let double := FloatFormat.double
  let one := double.ofScaled 1 0
  let guess := double.floor (double.multiply (max t.ratio one) (double.ofScaled missing 0))
  if greatestSize < guess then chunkSize else max chunkSize guess

/-- Take decoded characters. Before the first of them there is nothing to take, unless all of
them are asked for. -/
def take (t : TextFile) (n : Nat) : Attempt TextFile Text :=
  if 0 ≤ t.used then
    let taken := (t.decoded.drop t.used.toNat).take n
    ⟨.ok taken, { t with used := t.used + taken.length }⟩
  else if (n : Int) < t.decoded.length - t.used then .refuse t (.emptySequence "string")
  else ⟨.ok t.decoded, { t with used := t.decoded.length }⟩

/-- Draw a chunk and decode it. The result tells whether there was anything. -/
def drawChunk (t : TextFile) (d : TextDecoder) (missing : Nat) : Attempt TextFile Bool :=
  let drawn := t.file.readOnce (t.request missing)
  let t := { t with file := drawn.after }
  match drawn.outcome with
  | .error fault => .refuse t fault
  | .ok chunk =>
    match d.feed chunk chunk.isEmpty with
    | .error fault => .refuse t (.undecodableText fault)
    | .ok (decoded, d') =>
      let ratio := if decoded.isEmpty then 0
        else FloatFormat.double.ofQuotient chunk.length decoded.length
      ⟨.ok (!(chunk.isEmpty && decoded.isEmpty)), { t with
        decoder? := some d'
        decoded := decoded
        used := 0
        ratio := ratio
        snapshot? := some ⟨flagsOf d, d.pending ++ chunk⟩ }⟩

/-- Read characters until none is missing or there are no more. Every chunk but the last two has
a byte, so two more than the length of the file are enough `fuel`. -/
def readChunks : Nat → Nat → TextFile → Attempt TextFile Text
  | 0, _, t => ⟨.ok [], t⟩
  | fuel + 1, missing, t =>
    match t.decoder? with
    | none => ⟨.ok [], t⟩
    | some d =>
      if missing = 0 then ⟨.ok [], t⟩
      else
        (t.drawChunk d missing).andThen fun more t =>
          if more then
            (t.take missing).andThen fun taken t =>
              (readChunks fuel (missing - taken.length) t).map (taken ++ ·)
          else ⟨.ok [], t⟩

def read (t : TextFile) (n : Nat) : Attempt TextFile Text :=
  if greatestSize < n then .refuse t .sizeTooLarge
  else if t.file.closed then .refuse t closedFault
  else if t.decoder?.isNone then .refuse t (.unsupportedOperation "not readable")
  else
    (t.take n).andThen fun first t =>
      (t.readChunks (t.file.handle.content.length + 2) (n - first.length)).map (first ++ ·)

def flush (t : TextFile) : Attempt TextFile Unit :=
  if t.file.closed then .refuse t closedFault
  else t.file.flush.within fun f => { t with file := f }

/-- A place where the decoder can start, not behind `target` characters: the bytes before it, the
characters of these bytes, and the decoder behind them. The first guess are `skip` bytes; when it
leads too far, the next ones go back by steps that double. A guess may go beyond the bytes, where
there are zeros. -/
def approach (start : TextDecoder) (input : Bytes) (target skip doublings : Nat) :
    Except Utf8.DecodeFault (Nat × Nat × TextDecoder) :=
  if _hs : skip = 0 then .ok (0, 0, start)
  else
    let zeros := Bytes.zeros (skip - input.length)
    match start.feed (input.take skip ++ zeros) false with
    | .error fault => .error fault
    | .ok (t, d) =>
      if t.length ≤ target then
        if _hp : d.pending = [] then .ok (skip, t.length, d)
        else approach start input target (skip - d.pending.length) 0
      else approach start input target (skip - 2 ^ doublings) (doublings + 1)
termination_by skip
decreasing_by
  · have := List.length_pos_iff.mpr _hp
    omega
  · have := Nat.two_pow_pos doublings
    omega

/-- Feed bytes one by one from a mark on, `counted` characters after it, until no more characters
have to be skipped. Where nothing waits on the way the mark moves on. -/
def refine (m : TextMark) (counted : Int) (d : TextDecoder) : Bytes → Except Fault TextMark
  | [] =>
    match d.feed [] true with
    | .error fault => .error (.undecodableText fault)
    | .ok (t, _) =>
      if counted + t.length < m.charactersToSkip then .error .unknownPosition
      else .ok { m with atEnd := true }
  | b :: rest =>
    match d.feed [b] false with
    | .error fault => .error (.undecodableText fault)
    | .ok (t, d) =>
      let counted := counted + t.length
      let fed := m.bytesToFeed + 1
      if d.pending.isEmpty ∧ counted ≤ m.charactersToSkip then
        let m : TextMark := ⟨m.start + fed, flagsOf d, 0, m.charactersToSkip - counted, false⟩
        if m.charactersToSkip = 0 then .ok m else refine m 0 d rest
      else
        let m := { m with bytesToFeed := fed }
        if m.charactersToSkip ≤ counted then .ok m else refine m counted d rest

/-- The mark of the position, when the file itself is at `offset`. -/
def mark (t : TextFile) (s : Snapshot) (offset : Int) : Except Fault TextMark :=
  let m : TextMark := ⟨offset - s.input.length, s.flags, 0, 0, false⟩
  if t.used = 0 then .ok m
  else
    let double := FloatFormat.double
    let guess := double.floor (double.multiply t.ratio (double.ofScaled t.used.toNat 0))
    match approach m.decoder s.input t.used.toNat guess 0 with
    | .error fault => .error (.undecodableText fault)
    | .ok (skip, count, d) =>
      let m : TextMark :=
        ⟨m.start + skip, if skip = 0 then m.flags else flagsOf d, 0, t.used - count, false⟩
      if m.charactersToSkip = 0 then .ok m else refine m 0 d (s.input.drop skip)

def tell (t : TextFile) : Attempt TextFile Int :=
  t.flush.andThen fun _ t =>
    (t.file.tell.within fun f => { t with file := f }).andThen fun offset t =>
      match t.decoder?, t.snapshot? with
      | some _, some s => ⟨(t.mark s offset).map fun m => m.toNat, t⟩
      | _, _ => ⟨.ok offset, t⟩

/-- Decode from a mark on as far as the mark tells, behind what was read there. -/
def replay (t : TextFile) (m : TextMark) : Attempt TextFile Unit :=
  (t.file.readSigned m.bytesToFeed).within (fun f => { t with file := f }) |>.andThen fun chunk t =>
    let t := { t with snapshot? := some ⟨m.flags, chunk⟩ }
    match m.decoder.feed chunk m.atEnd with
    | .error fault => .refuse t (.undecodableText fault)
    | .ok (decoded, d) =>
      let t := { t with decoder? := some d, decoded := decoded }
      if decoded.length < m.charactersToSkip then .refuse t .lostPosition
      else ⟨.ok (), { t with used := m.charactersToSkip }⟩

/-- Go to a position, given as the number of a mark. -/
def seek (t : TextFile) (position : Int) : Attempt TextFile Int :=
  if t.file.closed then .refuse t closedFault
  else if position < 0 then .refuse t (Fault.negativePosition position).limited
  else
    t.flush.andThen fun _ t =>
      if TextMark.bound ≤ position.toNat then .refuse t .positionTooLong
      else
        let m := TextMark.ofNat position.toNat
        ((t.file.seek m.start).within fun f => { t with file := f }).andThen fun _ t =>
          let t := { t with
            decoder? := t.decoder?.map fun _ => m.decoder
            decoded := []
            used := 0
            snapshot? := none }
          if m.charactersToSkip = 0 then
            ⟨.ok position, { t with snapshot? := some ⟨m.flags, []⟩ }⟩
          else (t.replay m).map fun _ => position

def close (t : TextFile) : TextFile := { t with file := t.file.close }

end TextFile

end BinaryLayout
