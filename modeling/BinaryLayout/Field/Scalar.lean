import BinaryLayout.Field.Integer
import BinaryLayout.Field.Real

/-!
# Scalar fields

One element of a character, an integer or a real field, to and from its bytes. Padding has no
value, and the bytes of a string depend on the width of its field, so neither is a scalar.
-/
namespace BinaryLayout.Field

/-- A misfit, reported with the value it is about. -/
def reportPacking (s : Specifier) (v : Value) : Except Misfit Bytes → Except Fault Bytes
  | .ok raw => .ok raw
  | .error misfit => .error (Fault.unpackable v s misfit).limited

/-- The bytes of one element. -/
def encode (s : Specifier) (v : Value) (order : ByteOrder) : Except Fault Bytes :=
  match s.kind with
  | .char =>
    match v.byte? with
    | some b => .ok [b]
    | none => .error (Fault.notByte v).limited
  | .int => reportPacking s v (encodeInteger s order.endian v)
  | .real => reportPacking s v (encodeReal s order.endian v)
  | .pad | .string => .error (.noScalarEncoding s)

/-- The value of one element. A character is the first byte of what is given, a number takes
all of it. -/
def decode (s : Specifier) (raw : Buffer) (order : ByteOrder) : Except Fault Value :=
  match s.kind with
  | .char =>
    match raw.data with
    | [] => .error (.emptyByte raw.holding)
    | b :: _ => .ok (.text [CodePoint.ofByte b])
  | .int =>
    if raw.data.length = s.size then .ok (decodeInteger s order.endian raw.data)
    else .error (.undecodable raw.data s (.wrongLength s.size))
  | .real =>
    if raw.data.length = s.size then .ok (decodeReal s order.endian raw.data)
    else .error (.undecodable raw.data s (.wrongLength s.size))
  | .pad | .string => .error (.noScalarDecoding s)

end BinaryLayout.Field
