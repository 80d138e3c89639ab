import BinaryLayout.Bytes
import BinaryLayout.Number.Numeral
import BinaryLayout.Text.Printable

/-!
# Quoted literals

A text or a byte string is shown between quotes, apostrophes unless it holds apostrophes and no
quotation marks. The quote in use, the backslash and whatever is not printable are escaped.
-/
namespace BinaryLayout.Quoted

def quoteFor (t : Text) : CodePoint :=
  let apostrophe := CodePoint.ofChar '\''
  let mark := CodePoint.ofChar '"'
  if apostrophe ∈ t ∧ mark ∉ t then mark else apostrophe

/-- A numeric escape: its letter and the digits of the code point. -/
def numericEscape (letter : String) (width : Nat) (c : CodePoint) : Text :=
  .join ["\\", letter, Numeral.hexOfNat width c.val]

/-- The escape with a letter of its own, if the code point has one. -/
def namedEscape? (quote c : CodePoint) : Option Text :=
  if c = quote ∨ c.val = 0x5C then some [CodePoint.ofChar '\\', c]
  else if c.val = 0x09 then some "\\t"
  else if c.val = 0x0A then some "\\n"
  else if c.val = 0x0D then some "\\r"
  else none

/-- A code point inside a literal of text. -/
def escape (quote c : CodePoint) : Text :=
  match namedEscape? quote c with
  | some escaped => escaped
  | none =>
    if c.isPrintable then [c]
    else if c.val < 0x100 then numericEscape "x" 2 c
    else if c.val < 0x10000 then numericEscape "u" 4 c
    else numericEscape "U" 8 c

/-- A code point inside a literal of bytes, where only ASCII stands for itself. -/
def escapeByte (quote c : CodePoint) : Text :=
  match namedEscape? quote c with
  | some escaped => escaped
  | none => if c.val < 0x7F ∧ c.isPrintable then [c] else numericEscape "x" 2 c

def ofText (t : Text) : Text :=
  let quote := quoteFor t
  quote :: t.flatMap (escape quote) ++ [quote]

/-- Bytes between quotes, with one character escaped besides the backslash. -/
def bytesBetween (quote escaped : CodePoint) (t : Text) : Text :=
  CodePoint.ofChar 'b' :: quote :: t.flatMap (escapeByte escaped) ++ [quote]

def ofBytes (data : Bytes) : Text :=
  let t := data.map CodePoint.ofByte
  bytesBetween (quoteFor t) (quoteFor t) t

/-- The literal of a growable byte string, where apostrophes are escaped whatever the quote. -/
def ofGrowableBytes (data : Bytes) : Text :=
  let t := data.map CodePoint.ofByte
  .join ["bytearray(", bytesBetween (quoteFor t) (CodePoint.ofChar '\'') t, ")"]

end BinaryLayout.Quoted
