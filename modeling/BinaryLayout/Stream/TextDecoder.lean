import BinaryLayout.Text.Utf8

/-!
# Decoding in pieces

Text is decoded piece by piece, and a piece may end anywhere. The bytes of a code point that is
not complete wait for the next piece, and so does a carriage return, which may be the first half
of a line end. All line ends are read as line feeds.
-/
namespace BinaryLayout

/-- What waits for the next piece. -/
structure TextDecoder where
  pending : Bytes
  pendingReturn : Bool
  deriving DecidableEq, Repr

namespace TextDecoder

def empty : TextDecoder := ⟨[], false⟩

def carriageReturn : CodePoint := CodePoint.ofChar '\r'

def lineFeed : CodePoint := CodePoint.ofChar '\n'

/-- Every line end as a line feed. -/
def unifyLineEnds : Text → Text
  | [] => []
  | c :: rest =>
    if c = carriageReturn then
      lineFeed :: unifyLineEnds (if rest.head? = some lineFeed then rest.tail else rest)
    else c :: unifyLineEnds rest
termination_by t => t.length
decreasing_by
  · split
    · simp only [List.length_tail, List.length_cons]
      omega
    · simp
  · simp

/-- The text of the bytes, and the bytes of a code point at their end that is not complete; the
last piece may not have any. -/
def decodePiece (last : Bool) (data : Bytes) : Except Utf8.DecodeFault (Text × Bytes) :=
  match Utf8.decode data with
  | .ok t => .ok (t, [])
  | .error fault =>
    if !last && fault.problem = .unexpectedEnd then
      (Utf8.decode (data.take fault.start)).map fun t => (t, data.drop fault.start)
    else .error fault

/-- Decode a piece. -/
def feed (d : TextDecoder) (input : Bytes) (last : Bool) :
    Except Utf8.DecodeFault (Text × TextDecoder) := do
  let (t, pending) ← decodePiece last (d.pending ++ input)
  let released : Bool := d.pendingReturn && (last || !t.isEmpty)
  let t := if released then carriageReturn :: t else t
  let held : Bool := !last && t.getLast? = some carriageReturn
  let t := if held then t.dropLast else t
  return (unifyLineEnds t, ⟨pending, held || (d.pendingReturn && !released)⟩)

end TextDecoder

end BinaryLayout
