import BinaryLayout.Fault

/-!
# Real fields

A real field of eight bytes holds a double as it is, one of four bytes the single nearest to it.
Integers are turned into doubles first.
-/
namespace BinaryLayout.Field

/-- The double of a value. -/
def double? : Value → Option Binary64
  | .real x => some x
  | v => v.int?.bind Binary64.ofInt?

/-- The bytes of a single-precision field. -/
def encodeSingle (e : Endian) (v : Value) (x : Binary64) : Except Misfit Bytes :=
  match x.narrow? with
  | some pattern => .ok (Word.encode e 4 pattern)
  | none => .error (if v.int?.isSome then .tooLarge else .beyondSingle)

/-- The bytes of a real field. -/
def encodeReal (s : Specifier) (e : Endian) (v : Value) : Except Misfit Bytes :=
  match double? v with
  | none => .error .notReal
  | some x => if s.size = 4 then encodeSingle e v x else .ok (Word.encode e 8 x.bits.toNat)

/-- The value of a real field; a single is widened to a double. -/
def decodeReal (s : Specifier) (e : Endian) (raw : Bytes) : Value :=
  let pattern := Word.ofDigits (e.arrange raw)
  .real (if s.size = 4 then Binary64.widen pattern else ⟨UInt64.ofNat pattern⟩)

end BinaryLayout.Field
