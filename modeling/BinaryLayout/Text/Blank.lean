import BinaryLayout.Text.CodePoint

/-!
# Blanks

The whitespace of the code space: the characters with a spacing or line-breaking direction
class, and the four information separators. One set serves both the trimming of a text and
the gaps between its parts.
-/
namespace BinaryLayout.CodePoint

/-- The intervals of blanks, both ends included. -/
def blankRanges : List (Nat × Nat) :=
  [(0x09, 0x0D), (0x1C, 0x20), (0x85, 0x85), (0xA0, 0xA0), (0x1680, 0x1680),
    (0x2000, 0x200A), (0x2028, 0x2029), (0x202F, 0x202F), (0x205F, 0x205F), (0x3000, 0x3000)]

/-- A blank belongs to one of the intervals. -/
def isBlank (c : CodePoint) : Bool :=
  blankRanges.any fun r => r.1 ≤ c.val && c.val ≤ r.2

end BinaryLayout.CodePoint

namespace BinaryLayout.Text

def trimStart (t : Text) : Text := t.dropWhile CodePoint.isBlank

def trimEnd (t : Text) : Text := (t.reverse.dropWhile CodePoint.isBlank).reverse

def trim (t : Text) : Text := t.trimStart.trimEnd

theorem length_trimStart_le (t : Text) : t.trimStart.length ≤ t.length :=
  (List.dropWhile_sublist _).length_le

end BinaryLayout.Text
