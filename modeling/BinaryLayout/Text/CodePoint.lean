/-!
# Code points and texts

A text is a list of code points. Surrogates are code points like any other, so a text can
hold what no encoded file can; only the encoder of `BinaryLayout.Text.Utf8` tells the two
apart.
-/
namespace BinaryLayout

-- Powers are those of the core library in every module, whatever else it imports.
attribute [instance (high), default_instance (high + 1)] instPowNat

/-- A number of the code space, surrogates included. -/
abbrev CodePoint := Fin 0x110000

/-- A sequence of code points. -/
abbrev Text := List CodePoint

namespace CodePoint

def ofChar (c : Char) : CodePoint :=
  ⟨c.toNat, by
    have h := c.valid
    simp only [UInt32.isValidChar, Nat.isValidChar] at h
    simp only [Char.toNat]
    omega⟩

/-- The code point of a byte, for texts that hold one byte per character. -/
def ofByte (b : UInt8) : CodePoint :=
  ⟨b.toNat, by have := b.toNat_lt; omega⟩

/-- The code points that no encoding form carries on their own. -/
def isSurrogate (c : CodePoint) : Bool := 0xD800 ≤ c.val && c.val ≤ 0xDFFF

@[simp] theorem val_ofChar (c : Char) : (ofChar c).val = c.toNat := rfl

end CodePoint

namespace Text

def ofString (s : String) : Text := s.toList.map CodePoint.ofChar

/-- A message is written as a list of pieces, some of them plain strings. -/
instance : Coe String Text := ⟨ofString⟩

/-- The string of a text; a surrogate, which no string can hold, becomes the replacement
character. -/
def toString (t : Text) : String :=
  String.ofList (t.map fun c =>
    if h : c.val.isValidChar then Char.ofNatAux c.val h else '\uFFFD')

def join (pieces : List Text) : Text := pieces.flatten

/-- Pieces with a separator between neighbours. -/
def intercalate (separator : Text) (pieces : List Text) : Text :=
  (pieces.intersperse separator).flatten

/-- At least `width` code points, filled with blanks on the right. -/
def padRight (width : Nat) (t : Text) : Text :=
  t ++ List.replicate (width - t.length) (CodePoint.ofChar ' ')

end Text

end BinaryLayout
