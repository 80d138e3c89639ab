import BinaryLayout.Bytes

/-!
# Fixed-width integers

An integer field holds the base-256 digits of a number, and a signed field those of its
two's complement. `ofDigits_digits` and `digits_ofDigits` say that the digits of a fixed width
and the numbers below the modulus are the same thing.
-/
namespace BinaryLayout

/-- Which end of a number comes first. -/
inductive Endian where
  | little
  | big
  deriving DecidableEq, Repr

namespace Endian

/-- Little-endian digits put in order. -/
def arrange : Endian → Bytes → Bytes
  | .little, digits => digits
  | .big, digits => digits.reverse

@[simp] theorem arrange_arrange (e : Endian) (digits : Bytes) :
    e.arrange (e.arrange digits) = digits := by
  cases e <;> simp [arrange]

@[simp] theorem length_arrange (e : Endian) (digits : Bytes) :
    (e.arrange digits).length = digits.length := by
  cases e <;> simp [arrange]

end Endian

namespace Word

/-- The `width` least significant base-256 digits, least significant first. -/
def digits : Nat → Nat → Bytes
  | 0, _ => []
  | width + 1, n => UInt8.ofNat (n % 256) :: digits width (n / 256)

/-- The number with the given digits, least significant first. -/
def ofDigits : Bytes → Nat
  | [] => 0
  | b :: rest => b.toNat + 256 * ofDigits rest

@[simp] theorem length_digits (width n : Nat) : (digits width n).length = width := by
  induction width generalizing n with
  | zero => rfl
  | succ width ih => simp [digits, ih]

theorem ofDigits_digits (width n : Nat) : ofDigits (digits width n) = n % 256 ^ width := by
  induction width generalizing n with
  | zero => simp [digits, ofDigits, Nat.mod_one]
  | succ width ih =>
    have h : n % 256 % 2 ^ 8 = n % 256 := Nat.mod_eq_of_lt (Nat.mod_lt n (by decide))
    rw [digits, ofDigits, ih, UInt8.toNat_ofNat', h, Nat.pow_succ', Nat.mod_mul]

theorem ofDigits_lt (data : Bytes) : ofDigits data < 256 ^ data.length := by
  induction data with
  | nil => simp [ofDigits]
  | cons b rest ih =>
    have hb := b.toNat_lt
    rw [ofDigits, List.length_cons, Nat.pow_succ]
    omega

theorem digits_ofDigits (data : Bytes) : digits data.length (ofDigits data) = data := by
  induction data with
  | nil => rfl
  | cons b rest ih =>
    have hb : b.toNat < 256 := b.toNat_lt
    have h1 : (b.toNat + 256 * ofDigits rest) % 256 = b.toNat := by omega
    have h2 : (b.toNat + 256 * ofDigits rest) / 256 = ofDigits rest := by omega
    rw [List.length_cons, digits, ofDigits, h1, h2, ih, UInt8.ofNat_toNat]

/-- The least number of a field of `width` bytes. -/
def least (signed : Bool) (width : Nat) : Int := if signed then -(256 ^ width / 2 : Nat) else 0

/-- The greatest number of a field of `width` bytes. -/
def greatest (signed : Bool) (width : Nat) : Int :=
  if signed then (256 ^ width / 2 : Nat) - 1 else (256 ^ width : Nat) - 1

/-- The numbers that a field of `width` bytes can hold. -/
def Fits (signed : Bool) (width : Nat) (n : Int) : Prop :=
  least signed width ≤ n ∧ n ≤ greatest signed width

instance (signed : Bool) (width : Nat) (n : Int) : Decidable (Fits signed width n) :=
  inferInstanceAs (Decidable (_ ∧ _))

/-- The bytes of a number: the digits of its residue, so that a negative number is written as
its two's complement. -/
def encode (e : Endian) (width : Nat) (n : Int) : Bytes :=
  e.arrange (digits width (n % (256 ^ width : Nat)).toNat)

/-- The number that the bytes denote. -/
def decode (e : Endian) (signed : Bool) (raw : Bytes) : Int :=
  let n := ofDigits (e.arrange raw)
  if signed ∧ 256 ^ raw.length ≤ 2 * n then (n : Int) - (256 ^ raw.length : Nat) else n

@[simp] theorem length_encode (e : Endian) (width : Nat) (n : Int) :
    (encode e width n).length = width := by
  simp [encode]

end Word

end BinaryLayout
