import BinaryLayout.Number.Word

/-!
# Binary interchange numbers

A real field holds the pattern of a binary number with a sign, an exponent and a fraction. The
pattern itself is the value here, so that the sign and the payload of a NaN are kept. Read
without its sign a finite pattern counts the representable numbers upwards from zero, and
`Format.ofScaled` rounds by that count: the nearest one, a half going to the even pattern.
-/
namespace BinaryLayout

/-- The widths of the two fields below the sign. -/
structure FloatFormat where
  fractionBits : Nat
  exponentBits : Nat
  deriving DecidableEq, Repr

namespace FloatFormat

/-- Single precision, four bytes. -/
def single : FloatFormat := ⟨23, 8⟩

/-- Double precision, eight bytes. -/
def double : FloatFormat := ⟨52, 11⟩

def signWeight (f : FloatFormat) : Nat := 2 ^ (f.fractionBits + f.exponentBits)

/-- The pattern of infinity; greater patterns are NaNs. -/
def infinity (f : FloatFormat) : Nat := (2 ^ f.exponentBits - 1) * 2 ^ f.fractionBits

/-- The fraction bit that a quiet NaN has set. -/
def quietBit (f : FloatFormat) : Nat := 2 ^ (f.fractionBits - 1)

/-- The exponent of the least positive number. -/
def leastExponent (f : FloatFormat) : Int :=
  2 - (2 ^ (f.exponentBits - 1) : Nat) - (f.fractionBits : Int)

/-- The significand of a finite pattern. -/
def significand (f : FloatFormat) (pattern : Nat) : Nat :=
  if pattern < 2 ^ f.fractionBits then pattern
  else pattern % 2 ^ f.fractionBits + 2 ^ f.fractionBits

/-- The exponent of two that the significand is scaled by. -/
def exponent (f : FloatFormat) (pattern : Nat) : Int :=
  f.leastExponent + ((pattern / 2 ^ f.fractionBits - 1 : Nat) : Int)

/-- A quotient rounded to the nearest natural number, a half to the even one. -/
def divideEven (n d : Nat) : Nat :=
  if 2 * (n % d) < d then n / d
  else if d < 2 * (n % d) then n / d + 1
  else n / d + n / d % 2

/-- A number scaled by a power of two and rounded to a natural number, a half to the even
one. -/
def scaleEven (n : Nat) (k : Int) : Nat :=
  if 0 ≤ k then n * 2 ^ k.toNat else divideEven n (2 ^ (-k).toNat)

/-- The pattern nearest to `n * 2 ^ e`, a half going to the even one. Patterns from `infinity`
on stand for numbers that are too large. -/
def ofScaled (f : FloatFormat) (n : Nat) (e : Int) : Nat :=
  if n = 0 then 0
  else
    let unit := max ((n.log2 : Int) + e - f.fractionBits) f.leastExponent
    (unit - f.leastExponent).toNat * 2 ^ f.fractionBits + scaleEven n (e - unit)

/-- The pattern nearest to the quotient of two positive numbers. The quotient is taken to far
more places than a pattern has, with a last one that tells whether it goes on. -/
def ofQuotient (f : FloatFormat) (n d : Nat) : Nat :=
  let shift := 2 * f.fractionBits + d.log2
  let q := n * 2 ^ shift / d
  f.ofScaled (2 * q + if q * d = n * 2 ^ shift then 0 else 1) (-(shift : Int) - 1)

/-- The pattern nearest to the product of two finite patterns. -/
def multiply (f : FloatFormat) (p q : Nat) : Nat :=
  f.ofScaled (f.significand p * f.significand q) (f.exponent p + f.exponent q)

/-- The whole part of a finite pattern. -/
def floor (f : FloatFormat) (pattern : Nat) : Nat :=
  let e := f.exponent pattern
  if 0 ≤ e then f.significand pattern * 2 ^ e.toNat
  else f.significand pattern / 2 ^ (-e).toNat

end FloatFormat

/-- The pattern of a double-precision number. -/
structure Binary64 where
  bits : UInt64
  deriving DecidableEq, Repr

namespace Binary64

/-- A pattern from its sign and what lies below it. -/
def ofParts (negative : Bool) (pattern : Nat) : Binary64 :=
  ⟨UInt64.ofNat ((if negative then FloatFormat.double.signWeight else 0) + pattern)⟩

def negative (x : Binary64) : Bool := FloatFormat.double.signWeight ≤ x.bits.toNat

def magnitude (x : Binary64) : Nat := x.bits.toNat % FloatFormat.double.signWeight

/-- The number nearest to an integer, unless that is too large. -/
def ofInt? (n : Int) : Option Binary64 :=
  let pattern := FloatFormat.double.ofScaled n.natAbs 0
  if pattern < FloatFormat.double.infinity then some (ofParts (n < 0) pattern) else none

/-- A NaN moves to the other precision with the upper part of its fraction, and is quiet
there. -/
def quiet (f : FloatFormat) (fraction : Nat) : Nat :=
  f.infinity + (fraction ||| f.quietBit)

/-- The single-precision pattern nearest to a number, unless a finite number is too large for
it. -/
def narrow? (x : Binary64) : Option Nat :=
  let double := FloatFormat.double
  let single := FloatFormat.single
  let sign := if x.negative then single.signWeight else 0
  if x.magnitude < double.infinity then
    let pattern := single.ofScaled (double.significand x.magnitude) (double.exponent x.magnitude)
    if pattern < single.infinity then some (sign + pattern) else none
  else if x.magnitude = double.infinity then some (sign + single.infinity)
  else some (sign + quiet single ((x.magnitude - double.infinity) / 2 ^ 29))

/-- The double-precision number with the value of a single-precision pattern. -/
def widen (pattern : Nat) : Binary64 :=
  let double := FloatFormat.double
  let single := FloatFormat.single
  let negative : Bool := single.signWeight ≤ pattern
  let magnitude := pattern % single.signWeight
  if magnitude < single.infinity then
    ofParts negative (double.ofScaled (single.significand magnitude) (single.exponent magnitude))
  else if magnitude = single.infinity then ofParts negative double.infinity
  else ofParts negative (quiet double ((magnitude - single.infinity) * 2 ^ 29))

end Binary64

end BinaryLayout
