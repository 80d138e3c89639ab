import BinaryLayout.Fault

/-!
# Integer fields

A number goes into a field of its type if the field can hold it. One that does not fit is
reported in one of three ways: as too large for the machine word it passes through, with the
bounds of the type, or, for the types as wide as the word, without them.
-/
namespace BinaryLayout.Field

/-- How the bounds of a type are introduced. The narrow types have names of their own, two of
them only where the first byte is the least significant. -/
def boundsLabel : Specifier → Endian → Text
  | .int8, _ => "byte"
  | .uint8, _ => "ubyte"
  | .int16, .little => "short"
  | .uint16, .little => "ushort"
  | s, _ => .join ["'", s.name, "'"]

/-- The machine word that a number passes through has a sign. -/
def throughSigned : Specifier → Endian → Bool
  | .uint32, _ | .ulong32, _ | .uint16, .big => false
  | _, _ => true

/-- What a number that does not fit is refused with. -/
def integerMisfit (s : Specifier) (e : Endian) (n : Int) : Misfit :=
  if s.size = 8 then
    match e with
    | .little => .outOfRange
    | .big => .tooLarge
  else if Word.Fits (throughSigned s e) 8 n then
    .outside (boundsLabel s e) (Word.least s.signed s.size) (Word.greatest s.signed s.size)
  else .outOfRange

/-- The bytes of an integer field. -/
def encodeInteger (s : Specifier) (e : Endian) (v : Value) : Except Misfit Bytes :=
  match v.int? with
  | none => .error .notInteger
  | some n =>
    if Word.Fits s.signed s.size n then .ok (Word.encode e s.size n)
    else .error (integerMisfit s e n)

/-- The value of an integer field. -/
def decodeInteger (s : Specifier) (e : Endian) (raw : Bytes) : Value :=
  .int (Word.decode e s.signed raw)

end BinaryLayout.Field
