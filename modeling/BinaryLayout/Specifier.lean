import BinaryLayout.Text.CodePoint

/-!
# Specifiers

The table of field types: for each the character that names it, the size of one element, its
sign, its natural alignment and the kind of value it carries. A token may also carry a name that
is not in the table, which only shows when its entry is looked up.
-/
namespace BinaryLayout

/-- How the value of a field relates to its bytes. -/
inductive Kind where
  | pad
  | char
  | int
  | real
  | string
  deriving DecidableEq, Repr

/-- The types of fields. -/
inductive Specifier where
  | pad
  | char
  | int8
  | uint8
  | int16
  | uint16
  | int32
  | uint32
  | long32
  | ulong32
  | int64
  | uint64
  | float32
  | float64
  | string
  deriving DecidableEq, Repr

namespace Specifier

/-- Every type, in the order of the table. -/
def all : List Specifier :=
  [.pad, .char, .int8, .uint8, .int16, .uint16, .int32, .uint32, .long32, .ulong32, .int64,
    .uint64, .float32, .float64, .string]

/-- The character that stands for a type in a descriptor. -/
def letter : Specifier → Char
  | .pad => 'x'
  | .char => 'c'
  | .int8 => 'b'
  | .uint8 => 'B'
  | .int16 => 'h'
  | .uint16 => 'H'
  | .int32 => 'i'
  | .uint32 => 'I'
  | .long32 => 'l'
  | .ulong32 => 'L'
  | .int64 => 'q'
  | .uint64 => 'Q'
  | .float32 => 'f'
  | .float64 => 'd'
  | .string => 's'

def size : Specifier → Nat
  | .pad | .char | .int8 | .uint8 | .string => 1
  | .int16 | .uint16 => 2
  | .int32 | .uint32 | .long32 | .ulong32 | .float32 => 4
  | .int64 | .uint64 | .float64 => 8

/-- Negative numbers have a place in the field. -/
def signed : Specifier → Bool
  | .int8 | .int16 | .int32 | .long32 | .int64 | .float32 | .float64 => true
  | _ => false

/-- Aligned fields start at a multiple of this. The signed short is packed tightly. -/
def alignment : Specifier → Nat
  | .int16 => 1
  | s => s.size

def kind : Specifier → Kind
  | .pad => .pad
  | .char => .char
  | .float32 | .float64 => .real
  | .string => .string
  | _ => .int

def name (s : Specifier) : Text := [CodePoint.ofChar s.letter]

def ofLetter? (c : CodePoint) : Option Specifier :=
  all.find? fun s => CodePoint.ofChar s.letter = c

def ofName? : Text → Option Specifier
  | [c] => ofLetter? c
  | _ => none

@[simp] theorem ofLetter?_letter (s : Specifier) :
    ofLetter? (CodePoint.ofChar s.letter) = some s := by
  cases s <;> decide

theorem size_pos (s : Specifier) : 0 < s.size := by cases s <;> decide

theorem alignment_pos (s : Specifier) : 0 < s.alignment := by cases s <;> decide

end Specifier

namespace Kind

def name : Kind → String
  | .pad => "PAD"
  | .char => "CHAR"
  | .int => "INT"
  | .real => "REAL"
  | .string => "STRING"

end Kind

end BinaryLayout
