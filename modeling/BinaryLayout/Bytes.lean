import BinaryLayout.Text.CodePoint

/-!
# Byte strings

The data that fields are written into and read from, with the slices that a signed offset
denotes and the two renditions a dump shows: hexadecimal pairs and bits.
-/
namespace BinaryLayout

/-- A finite sequence of bytes. -/
abbrev Bytes := List UInt8

namespace Bytes

/-- The place that a signed offset denotes among `length` bytes: below zero it counts from the
end, and outside the data it moves to the nearer end. -/
def place (length : Nat) (offset : Int) : Nat :=
  if offset < 0 then (offset + length).toNat else min offset.toNat length

theorem place_le (length : Nat) (offset : Int) : place length offset ≤ length := by
  unfold place
  split <;> omega

theorem place_natCast {length offset : Nat} (h : offset ≤ length) :
    place length offset = offset := by
  have h0 : ¬(offset : Int) < 0 := by omega
  rw [place, if_neg h0]
  omega

/-- The bytes from one place to another; none when the first is not before the second. -/
def slice (data : Bytes) (start stop : Int) : Bytes :=
  (data.take (place data.length stop)).drop (place data.length start)

def sliceFrom (data : Bytes) (start : Int) : Bytes := data.drop (place data.length start)

def sliceTo (data : Bytes) (stop : Int) : Bytes := data.take (place data.length stop)

/-- Put `raw` where it belongs; past the end the data grows. -/
def splice (data : Bytes) (offset : Nat) (raw : Bytes) : Bytes :=
  data.take offset ++ raw ++ data.drop (offset + raw.length)

def zeros (n : Nat) : Bytes := List.replicate n 0

@[simp] theorem length_zeros (n : Nat) : (zeros n).length = n := List.length_replicate

theorem getElem?_zeros {n i : Nat} (h : i < n) : (zeros n)[i]? = some 0 := by
  rw [zeros, List.getElem?_replicate, if_pos h]

/-- Put `raw` at an offset that may be behind the end: then zeros fill the gap. -/
def overwrite (data : Bytes) (offset : Nat) (raw : Bytes) : Bytes :=
  (data ++ zeros (offset - data.length)).splice offset raw

/-- Between offsets inside the data a slice is the usual one. -/
theorem slice_of_le {data : Bytes} {start stop : Nat} (h : start ≤ stop)
    (hs : stop ≤ data.length) :
    slice data start stop = (data.drop start).take (stop - start) := by
  rw [slice, place_natCast (Nat.le_trans h hs), place_natCast hs, List.drop_take]

theorem length_splice {data : Bytes} {offset : Nat} {raw : Bytes}
    (h : offset + raw.length ≤ data.length) :
    (splice data offset raw).length = data.length := by
  simp [splice]
  omega

/-- The digits of a byte in a base that is a power of two, most significant first. -/
def digitPair (b : UInt8) : Text :=
  [b.toNat / 16, b.toNat % 16].map fun d => CodePoint.ofChar (Nat.digitChar d)

def hex (data : Bytes) : Text := data.flatMap digitPair

end Bytes

/-- A way to write bytes as bits, which the program is given. -/
class BitText where
  ofBytes : Bytes → Text

def bitDigit (set : Bool) : CodePoint := CodePoint.ofChar (if set then '1' else '0')

/-- Bits are written in order: those of the first byte come first, and of each byte the one of the
greatest weight. -/
structure BitText.InOrder [BitText] : Prop where
  append : ∀ first rest, ofBytes (first ++ rest) = ofBytes first ++ ofBytes rest
  byte : ∀ b : UInt8,
    ofBytes [b] = (List.range 8).map fun place => bitDigit (b.toNat.testBit (7 - place))

end BinaryLayout
