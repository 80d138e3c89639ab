import BinaryLayout.Session

/-!
# Dumps

A dump shows the fields of one record, each on a line of its own: where it is, its type, its
bytes, its value and its bits. Nothing is shown unless the whole record can be unpacked.
-/
namespace BinaryLayout.Dump

/-- The columns of a line. -/
def columns (offset kind raw value bits : Text) : Text :=
  .join [" ", offset.padRight 10, " ", kind.padRight 5, " ", raw.padRight 20, " ",
    value.padRight 24, " ", bits, "\n"]

/-- The first lines: the format and the names of the columns. -/
def header (f : Format) : List Text :=
  [.join ["Format: ", f.descriptor.trim, " (", f.order.name, ")\n"],
    columns "Offset" "Type" "Raw" "Value" "Bits"]

/-- The line of a field of a record that starts at `offset` in its data. -/
def line [BitText] (record : Bytes) (offset : Int) (values : List Value) (field : FieldLayout) :
    Text :=
  let raw := record.slice field.offset (field.offset + field.size)
  let value := (values[field.index]?.bind Value.literal?).getD []
  columns (.join ["0x", Numeral.hexOfInt 8 (offset + field.offset)]) field.specifier.name raw.hex
    value (BitText.ofBytes raw)

/-- The bytes of a value from an offset on. -/
def recordOf (data : Value) (offset : Int) : Except Fault Bytes :=
  match data with
  | .buffer b => .ok (b.data.sliceFrom offset)
  | .text _ | .list _ => .error (.notBuffer data.kindName)
  | .tuple _ | .format _ => .error (.notBuffer "tuple")
  | _ => .error (.notSequence data.kindName)

/-- The lines of the dump of the record at an offset. -/
def lines [BitText] (descriptor data : Value) (offset : Int) : Action (List Text) := do
  let f := (← Session.compile descriptor).format
  let record ← Session.report (recordOf data offset)
  let values ← Session.unpackFormat f record 0
  let fields ← Session.report f.layout
  return header f ++ fields.map (line record offset values)

/-- The dump of the record at an offset. -/
def dump [BitText] (descriptor data : Value) (offset : Int) : Action Text := do
  return .join (← lines descriptor data offset)

end BinaryLayout.Dump
