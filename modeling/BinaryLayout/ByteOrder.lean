import BinaryLayout.Number.Word

/-!
# Byte orders

The mark that can open a descriptor says how numbers are written and whether fields are moved to
their natural alignment. The host is little endian, so both native orders are.
-/
namespace BinaryLayout

/-- A byte order, of which only the default one aligns. -/
inductive ByteOrder where
  | nativeAligned
  | native
  | littleEndian
  | bigEndian
  | network
  deriving DecidableEq, Repr

namespace ByteOrder

/-- Every byte order, in the order of the marks `@=<>!`. -/
def all : List ByteOrder := [.nativeAligned, .native, .littleEndian, .bigEndian, .network]

/-- The character that selects a byte order. -/
def mark : ByteOrder → Char
  | .nativeAligned => '@'
  | .native => '='
  | .littleEndian => '<'
  | .bigEndian => '>'
  | .network => '!'

def default : ByteOrder := .nativeAligned

def ofMark? (c : CodePoint) : Option ByteOrder :=
  all.find? fun order => CodePoint.ofChar order.mark = c

/-- The name under which a byte order is reported. -/
def name : ByteOrder → String
  | .nativeAligned => "NATIVE_ALIGNED"
  | .native => "NATIVE"
  | .littleEndian => "LITTLE_ENDIAN"
  | .bigEndian => "BIG_ENDIAN"
  | .network => "NETWORK"

/-- Fields are moved to a multiple of their alignment. -/
def aligned : ByteOrder → Bool
  | .nativeAligned => true
  | _ => false

/-- Which end of a number comes first. -/
def endian : ByteOrder → Endian
  | .nativeAligned | .native | .littleEndian => .little
  | .bigEndian | .network => .big

@[simp] theorem ofMark?_mark (order : ByteOrder) :
    ofMark? (CodePoint.ofChar order.mark) = some order := by
  cases order <;> decide

end ByteOrder

end BinaryLayout
