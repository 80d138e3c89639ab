import BinaryLayout.Number.Shortest
import BinaryLayout.Value

/-!
# Literals of values

Messages show the value they are about. A view shows where it is in memory, which is not the
same twice, so the literal of a value that holds one is not defined; and integers beyond the
digit limit have no literal at all.
-/
namespace BinaryLayout.Value

/-- The literals of a sequence between brackets. -/
def bracketed (opening closing : Text) (items : List Text) : Text :=
  .join [opening, Text.intercalate ", " items, closing]

mutual

/-- How a value is shown, unless that would hold an address. -/
def literal? : Value → Option Text
  | .absent => some "None"
  | .bool b => some (if b then "True" else "False")
  | .int n => some (Numeral.ofInt n)
  | .real x => some (Shortest.text x)
  | .text t => some (Quoted.ofText t)
  | .buffer b =>
    match b.holding with
    | .fixed => some (Quoted.ofBytes b.data)
    | .growable => some (Quoted.ofGrowableBytes b.data)
    | .view _ => none
  | .list items => (literals? items).map (bracketed "[" "]")
  | .tuple items =>
    (literals? items).map (bracketed "(" (if items.length = 1 then ",)" else ")"))
  | .format f => some f.literal

def literals? : List Value → Option (List Text)
  | [] => some []
  | v :: rest => do
    let first ← literal? v
    let others ← literals? rest
    return first :: others

end

mutual

/-- Every integer in a value is within the digit limit. -/
def showable : Value → Bool
  | .int n => decide (Numeral.Showable n)
  | .list items => allShowable items
  | .tuple items => allShowable items
  | .format f => decide f.Showable
  | _ => true

def allShowable : List Value → Bool
  | [] => true
  | v :: rest => showable v && allShowable rest

end

end BinaryLayout.Value
