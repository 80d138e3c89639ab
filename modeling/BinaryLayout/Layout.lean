import BinaryLayout.Placement

/-!
# Layouts

Where each value of a record is. A repeated scalar has one entry for each element, a string one
for its whole field, and padding none, since it carries no value.
-/
namespace BinaryLayout

/-- The bytes of one value and its number among the values. -/
structure FieldLayout where
  offset : Int
  size : Int
  specifier : Specifier
  index : Nat
  deriving DecidableEq, Repr

/-- The bytes of the values of a token: offsets and sizes. -/
def Placement.extents (p : Placement) : List (Int × Int) :=
  match p.specifier.kind with
  | .pad => []
  | .string => [(p.offset, p.count)]
  | _ => (List.range p.count.toNat).map fun i => (p.elementOffset i, (p.specifier.size : Int))

/-- The values of a token, not yet numbered. -/
def Placement.fields (p : Placement) : List (Nat → FieldLayout) :=
  p.extents.map fun e => FieldLayout.mk e.1 e.2 p.specifier

namespace Format

/-- The values of a record in order. -/
def layout (f : Format) : Except Fault (List FieldLayout) :=
  (f.placements 0).map fun ps =>
    (ps.flatMap Placement.fields).zipIdx.map fun entry => entry.1 entry.2

def arity (f : Format) : Except Fault Nat := f.layout.map List.length

end Format

end BinaryLayout
