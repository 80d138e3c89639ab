import BinaryLayout.Fault

/-!
# Placement of fields

Every operation on a format walks its tokens in the same way: under the aligning byte order the
offset first moves to a multiple of the alignment of the type, then the field takes its count
times its size. The walk stops at a type that the table does not know, and since operations
check each field when they reach it, that is reported only if nothing before it fails.
-/
namespace BinaryLayout

/-- The least padding that brings an offset to a multiple of an alignment. -/
def padCount (offset alignment : Int) : Int :=
  (alignment - offset.fmod alignment).fmod alignment

/-- There are no multiples of zero to move to. -/
def padCount? (offset alignment : Int) : Except Fault Int :=
  if alignment = 0 then .error .zeroAlignment else .ok (padCount offset alignment)

theorem padCount_eq_emod {alignment : Int} (offset : Int) (h : 0 < alignment) :
    padCount offset alignment = (-offset) % alignment := by
  have h0 : 0 ≤ alignment := by omega
  rw [padCount, Int.fmod_eq_emod_of_nonneg _ h0, Int.fmod_eq_emod_of_nonneg _ h0, Int.sub_emod,
    Int.emod_emod_of_dvd _ (Int.dvd_refl alignment), ← Int.sub_emod, Int.sub_eq_add_neg,
    Int.add_emod_left]

theorem padCount_nonneg {alignment : Int} (offset : Int) (h : 0 < alignment) :
    0 ≤ padCount offset alignment := by
  rw [padCount_eq_emod offset h]
  exact Int.emod_nonneg _ (by omega)

theorem padCount_lt {alignment : Int} (offset : Int) (h : 0 < alignment) :
    padCount offset alignment < alignment := by
  rw [padCount_eq_emod offset h]
  exact Int.emod_lt_of_pos _ h

theorem dvd_add_padCount {alignment : Int} (offset : Int) (h : 0 < alignment) :
    alignment ∣ offset + padCount offset alignment := by
  rw [padCount_eq_emod offset h]
  apply Int.dvd_of_emod_eq_zero
  rw [Int.add_emod_emod, Int.add_right_neg, Int.zero_emod]

/-- The offset at which a field of the given type starts. -/
def ByteOrder.align (order : ByteOrder) (s : Specifier) (offset : Int) : Int :=
  if order.aligned then offset + padCount offset s.alignment else offset

/-- A token at its place. -/
structure Placement where
  offset : Int
  count : Int
  specifier : Specifier
  deriving DecidableEq, Repr

namespace Placement

def size (p : Placement) : Int := p.count * p.specifier.size

def stop (p : Placement) : Int := p.offset + p.size

def elementOffset (p : Placement) (index : Nat) : Int := p.offset + index * p.specifier.size

/-- The elements lie inside a buffer of the given length. -/
def Inside (p : Placement) (length : Nat) : Prop := 0 ≤ p.offset ∧ p.stop ≤ length

instance (p : Placement) (length : Nat) : Decidable (p.Inside length) :=
  inferInstanceAs (Decidable (_ ∧ _))

/-- Refuse elements that are not inside the buffer. -/
def check (p : Placement) (length : Nat) : Except Fault Unit :=
  if p.Inside length then .ok () else .error (Fault.bufferTooSmall p.offset p.size length).limited

end Placement

/-- The entry of the table for a code. -/
def Code.specifier : Code → Except Fault Specifier
  | .known s => .ok s
  | .unknown name => .error (.unknownSpecifier name)

/-- The tokens at their places from an offset on, up to the first unknown type. -/
def place (order : ByteOrder) : Int → List Token → List (Except Fault Placement)
  | _, [] => []
  | offset, t :: rest =>
    match t.code.specifier with
    | .error fault => [.error fault]
    | .ok s =>
      let p : Placement := ⟨order.align s offset, t.count, s⟩
      .ok p :: place order p.stop rest

namespace Format

/-- The walk over the tokens of a format. -/
def walk (f : Format) (offset : Int) : List (Except Fault Placement) :=
  place f.order offset f.tokens

/-- The tokens at their places, if all their types are known. -/
def placements (f : Format) (offset : Int) : Except Fault (List Placement) :=
  (f.walk offset).mapM id

def size (f : Format) : Except Fault Int :=
  (f.placements 0).map fun ps => (ps.getLast?.map Placement.stop).getD 0

end Format

end BinaryLayout
