import BinaryLayout.ByteOrder
import BinaryLayout.Number.Numeral
import BinaryLayout.Specifier
import BinaryLayout.Text.Quoted

/-!
# Formats

A format is what a descriptor denotes: a byte order and a sequence of counted field types. One
can also be put together by hand, and then a count may be zero or negative and a type may have a
name that the table does not know.
-/
namespace BinaryLayout

/-- The type of a token: an entry of the table, or a name without one. -/
inductive Code where
  | known (specifier : Specifier)
  | unknown (name : Text)
  deriving DecidableEq, Repr

namespace Code

def ofName (name : Text) : Code :=
  match Specifier.ofName? name with
  | some s => .known s
  | none => .unknown name

def name : Code → Text
  | .known s => s.name
  | .unknown name => name

end Code

/-- A counted field type. For a string the count is the width of its one field. -/
structure Token where
  count : Int
  code : Code
  deriving DecidableEq, Repr

/-- A record layout, with the text it was written as. -/
structure Format where
  order : ByteOrder
  tokens : List Token
  descriptor : Text
  deriving DecidableEq, Repr

def Token.literal (t : Token) : Text :=
  .join ["FormatToken(count=", Numeral.ofInt t.count, ", specifier=", Quoted.ofText t.code.name,
    ")"]

/-- The decimal text of a token's count is within the limit. -/
def Token.Showable (t : Token) : Prop := Numeral.Showable t.count

instance (t : Token) : Decidable t.Showable := inferInstanceAs (Decidable (Numeral.Showable _))

namespace Format

/-- The tokens of a format, shown as a list. -/
def tokenList (f : Format) : Text :=
  .join ["[", Text.intercalate ", " (f.tokens.map Token.literal), "]"]

def literal (f : Format) : Text :=
  let comma : Text := if f.tokens.length = 1 then "," else ""
  .join ["CompiledFormat(byteorder=<ByteOrder.", f.order.name, ": ",
    Quoted.ofText [CodePoint.ofChar f.order.mark], ">, tokens=(",
    Text.intercalate ", " (f.tokens.map Token.literal), comma, "), descriptor=",
    Quoted.ofText f.descriptor, ")"]

def Showable (f : Format) : Prop := ∀ t ∈ f.tokens, t.Showable

instance (f : Format) : Decidable f.Showable := inferInstanceAs (Decidable (∀ t ∈ _, _))

end Format

end BinaryLayout
