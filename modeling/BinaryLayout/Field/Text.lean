import BinaryLayout.Fault

/-!
# String fields

A string field holds the start of an encoded text, or of bytes as they are. What does not fill
the field leaves the rest of it alone, and reading the field gives all of its bytes back.
-/
namespace BinaryLayout.Field

/-- The binary form of a string value. -/
def stringBytes : Value → Except Fault Bytes
  | .text t =>
    match Utf8.encode t with
    | .ok data => .ok data
    | .error run => .error (.surrogates run)
  | .buffer b => .ok b.data
  | v => .error (Fault.notString v).limited

/-- The bytes of a string in a field of the given width. -/
def encodeString (v : Value) (width : Int) : Except Fault Bytes :=
  (stringBytes v).map fun data => data.sliceTo width

/-- The text of a string field. -/
def decodeString (raw : Bytes) : Except Fault Text :=
  match Utf8.decode raw with
  | .ok t => .ok t
  | .error fault => .error (.invalidUtf8 raw fault)

end BinaryLayout.Field
