import BinaryLayout.Allocation
import BinaryLayout.Field.Scalar

/-!
# Raw values

What is given in place of the bytes of a field. A number is read from a buffer only, and a
character from the start of a buffer or of a sequence of numbers. A string, and the bits of a
field, are read from whatever bytes can be made of: a number stands for so many zeros, and a
sequence of numbers for the bytes of these values.
-/
namespace BinaryLayout.Field

/-- The number that an item of a sequence stands for. -/
def itemNumber (v : Value) : Except Fault Int :=
  match v.int? with
  | some n => .ok n
  | none => .error (.notIndex v.kindName)

/-- The byte that an item of a sequence stands for. -/
def itemByte (v : Value) : Except Fault UInt8 := do
  let n ← itemNumber v
  if 0 ≤ n ∧ n < 0x100 then return UInt8.ofNat n.toNat else .error .notByteValue

/-- The character that an item of a sequence stands for. A number has to fit half a machine word
before it is looked at as a code. -/
def itemCharacter (v : Value) : Except Fault Value := do
  let n ← itemNumber v
  if n < -(2 ^ 31) ∨ 2 ^ 31 ≤ n then .error .characterCodeTooLarge
  else if h : 0 ≤ n ∧ n < 0x110000 then return .text [⟨n.toNat, by omega⟩]
  else .error .notCharacterCode

/-- The bytes that can be made of a value. -/
def rawBytes [Host] : Value → Except Fault Bytes
  | .buffer b => .ok b.data
  | .bool b => zeroString (if b then 1 else 0)
  | .int n => zeroString n
  | .list items | .tuple items => items.mapM itemByte
  | .text _ => .error .noEncoding
  | .format _ => .error (.notIndex "ByteOrder")
  | v => .error (.notConvertible v.kindName)

/-- The character at the start of a value that is no buffer. -/
def firstCharacter : Value → Except Fault Value
  | .text [] => .error (.emptySequence "string")
  | .text _ => .error (.notIndex "str")
  | .list [] => .error (.emptySequence "list")
  | .tuple [] => .error (.emptySequence "tuple")
  | .list (v :: _) | .tuple (v :: _) => itemCharacter v
  | .format _ => .error (.notIndex "ByteOrder")
  | v => .error (.notSequence v.kindName)

/-- The value of one element, from a value in place of its bytes. -/
def decodeRaw (s : Specifier) (raw : Value) (order : ByteOrder) : Except Fault Value :=
  match raw with
  | .buffer b => decode s b order
  | v =>
    match s.kind with
    | .char => firstCharacter v
    | .int | .real => .error (.notBytesLike v.kindName)
    | .pad | .string => .error (.noScalarDecoding s)

end BinaryLayout.Field
