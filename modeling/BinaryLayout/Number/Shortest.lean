import BinaryLayout.Number.Binary
import BinaryLayout.Number.Numeral

/-!
# Shortest decimals

A real number is shown by the fewest digits that read back as the same number: for each count
of digits the two neighbours of the exact value on that decimal grid are tried, the nearer one
first, and the first grid with a neighbour inside the rounding interval wins.
-/
namespace BinaryLayout.Shortest

/-- The positive numbers that round to one finite number, over a common denominator. The ends
belong to the interval when the significand is even. -/
structure Interval where
  lower : Nat
  value : Nat
  upper : Nat
  denominator : Nat
  closed : Bool

/-- The interval around a finite pattern that is not zero. Below a power of two the neighbour is
only half as far away. -/
def Interval.ofPattern (f : FloatFormat) (pattern : Nat) : Interval :=
  let m := f.significand pattern
  let e := f.exponent pattern - 2
  let scale := 2 ^ e.toNat
  let below := if m = 2 ^ f.fractionBits ∧ 2 ^ f.fractionBits * 2 ≤ pattern then 1 else 2
  ⟨(4 * m - below) * scale, 4 * m * scale, (4 * m + 2) * scale, 2 ^ (-e).toNat, m % 2 = 0⟩

/-- The multiple `c` of a power of ten lies in the interval. -/
def Interval.contains (i : Interval) (c : Nat) (power : Int) : Bool :=
  let x := c * 10 ^ power.toNat * i.denominator
  let lower := i.lower * 10 ^ (-power).toNat
  let upper := i.upper * 10 ^ (-power).toNat
  if i.closed then lower ≤ x && x ≤ upper else lower < x && x < upper

def digitCount (n : Nat) : Nat := (Nat.toDigits 10 n).length

/-- The power of ten of the first digit of the value. -/
def Interval.leadingPower (i : Interval) : Int :=
  if i.denominator ≤ i.value then (digitCount (i.value / i.denominator) : Int) - 1
  else -(digitCount ((i.denominator + i.value - 1) / i.value - 1) : Int)

/-- The neighbour of the value on the grid of a power of ten that reads back, the nearer of the
two if both do, and of two equally near ones the even one. -/
def Interval.neighbour? (i : Interval) (power : Int) : Option Nat :=
  let n := i.value * 10 ^ (-power).toNat
  let d := i.denominator * 10 ^ power.toNat
  let c := n / d
  let nearFirst : Bool := 2 * (n % d) < d ∨ (2 * (n % d) = d ∧ c % 2 = 0)
  (if nearFirst then [c, c + 1] else [c + 1, c]).find? fun x => i.contains x power

/-- A decimal significand and the power of ten that scales it. -/
structure Decimal where
  significand : Nat
  power : Int
  deriving DecidableEq, Repr

/-- Seventeen digits always read back. -/
def Interval.decimal (i : Interval) : Decimal :=
  let leading := i.leadingPower
  let first? := (List.range 17).findSome? fun (k : Nat) =>
    (i.neighbour? (leading - k)).map fun c => (⟨c, leading - k⟩ : Decimal)
  first?.getD ⟨0, 0⟩

/-- How many places before the point are still written without an exponent. -/
def positionalPlaces : Int := 16

/-- How many zeros after the point are still written without an exponent. -/
def positionalZeros : Int := 3

/-- The exponent is signed and has at least two digits. -/
def exponentText (e : Int) : Text :=
  CodePoint.ofChar 'e' :: CodePoint.ofChar (if e < 0 then '-' else '+') ::
    Numeral.padZeros 2 (Numeral.ofNat e.natAbs)

/-- Digits with a point after the first `place` of them. -/
def layOut (digits : Text) (place : Int) : Text :=
  let zero := CodePoint.ofChar '0'
  if place ≤ -positionalZeros - 1 ∨ positionalPlaces < place then
    let fraction := if digits.length ≤ 1 then [] else CodePoint.ofChar '.' :: digits.tail
    digits.take 1 ++ fraction ++ exponentText (place - 1)
  else if place ≤ 0 then
    Text.ofString "0." ++ List.replicate (-place).toNat zero ++ digits
  else
    let whole := digits.take place.toNat
    let rest := digits.drop place.toNat
    whole ++ List.replicate (place.toNat - whole.length) zero ++ [CodePoint.ofChar '.'] ++
      (if rest = [] then [zero] else rest)

/-- The decimal text without the zeros at its end. -/
def trimZeros (digits : Text) : Text :=
  (digits.reverse.dropWhile (· = CodePoint.ofChar '0')).reverse

/-- The text of a pattern below its sign. -/
def magnitudeText (pattern : Nat) : Text :=
  if pattern = 0 then Text.ofString "0.0"
  else
    let decimal := (Interval.ofPattern .double pattern).decimal
    let digits := Numeral.ofNat decimal.significand
    layOut (trimZeros digits) (decimal.power + digits.length)

/-- The text of a double-precision number; all NaNs read the same. -/
def text (x : Binary64) : Text :=
  if FloatFormat.double.infinity < x.magnitude then Text.ofString "nan"
  else
    (if x.negative then [CodePoint.ofChar '-'] else []) ++
      if x.magnitude = FloatFormat.double.infinity then Text.ofString "inf"
      else magnitudeText x.magnitude

end BinaryLayout.Shortest
