import BinaryLayout.Text.Blank
import BinaryLayout.Text.DecimalDigit

/-!
# Numerals

Texts of integers: decimal and padded hexadecimal ones to write, and the integer literals of a
command line to read. A decimal text has at most `digitLimit` digits in either direction, which
keeps conversions that take quadratic time out of reach of the data.
-/
namespace BinaryLayout.Numeral

/-- The most digits of a decimal numeral. -/
def digitLimit : Nat := 4300

def ofNat (n : Nat) : Text := (Nat.toDigits 10 n).map CodePoint.ofChar

def ofInt (n : Int) : Text :=
  if n < 0 then CodePoint.ofChar '-' :: ofNat n.natAbs else ofNat n.natAbs

/-- The integers whose decimal text is within the limit. -/
def Showable (n : Int) : Prop := n.natAbs < 10 ^ digitLimit

instance (n : Int) : Decidable (Showable n) := inferInstanceAs (Decidable (_ < _))

/-- A numeral filled with zeros up to `width` places. -/
def padZeros (width : Nat) (t : Text) : Text :=
  List.replicate (width - t.length) (CodePoint.ofChar '0') ++ t

/-- The hexadecimal text of a natural number in at least `width` places. -/
def hexOfNat (width n : Nat) : Text :=
  padZeros width ((Nat.toDigits 16 n).map CodePoint.ofChar)

/-- The hexadecimal text of an integer; a sign takes one of the `width` places. -/
def hexOfInt (width : Nat) (n : Int) : Text :=
  if n < 0 then CodePoint.ofChar '-' :: hexOfNat (width - 1) n.natAbs
  else hexOfNat width n.natAbs

/-- The number with the given digits, most significant first. -/
def ofDigits (base : Nat) (digits : List Nat) : Nat :=
  digits.foldl (fun n d => base * n + d) 0

/-- The value of an ASCII digit. -/
def asciiDigitValue (c : CodePoint) : Nat := c.val - 0x30

/-- The number that a run of ASCII digits denotes. -/
def ofAsciiDigits (digits : Text) : Nat := ofDigits 10 (digits.map asciiDigitValue)

/-! ## Literals -/

/-- The value of a digit in bases up to thirty-six: a decimal digit of any script or a letter
of either case. -/
def digitValue? (c : CodePoint) : Option Nat :=
  if 0x41 ≤ c.val ∧ c.val ≤ 0x5A then some (c.val - 0x41 + 10)
  else if 0x61 ≤ c.val ∧ c.val ≤ 0x7A then some (c.val - 0x61 + 10)
  else c.digitValue?

/-- The value of a digit of the given base. -/
def digitOf? (base : Nat) (c : CodePoint) : Option Nat := (digitValue? c).filter (· < base)

/-- Digits of a base, with at most one underscore between neighbours. -/
def digitRun? (base : Nat) : Text → Option (List Nat)
  | [] => none
  | [c] => (digitOf? base c).map ([·])
  | c :: u :: rest => do
    let d ← digitOf? base c
    let ds ← if u.val = 0x5F then digitRun? base rest else digitRun? base (u :: rest)
    return d :: ds

/-- A literal in a base marked by a letter; one underscore may follow the mark. -/
def marked? (base : Nat) (t : Text) : Option Nat :=
  (digitRun? base (if t.head?.any (·.val = 0x5F) then t.tail else t)).map (ofDigits base)

/-- A decimal literal; it starts with a zero only if it is zero. -/
def plain? (t : Text) : Option Nat := do
  let ds ← digitRun? 10 t
  let n := ofDigits 10 ds
  if ds.length ≤ digitLimit ∧ (ds.head? = some 0 → n = 0) then some n else none

/-- The base that a letter after a leading zero marks. -/
def markedBase? (c : CodePoint) : Option Nat :=
  if c.val = 0x78 ∨ c.val = 0x58 then some 16
  else if c.val = 0x6F ∨ c.val = 0x4F then some 8
  else if c.val = 0x62 ∨ c.val = 0x42 then some 2
  else none

def unsigned? : Text → Option Nat
  | z :: m :: rest =>
    match z.digitValue?, markedBase? m with
    | some 0, some base => marked? base rest
    | _, _ => plain? (z :: m :: rest)
  | t => plain? t

/-- The blanks that may surround a literal: the information separators do not count. -/
def isGap (c : CodePoint) : Bool := c.isBlank && !(0x1C ≤ c.val && c.val ≤ 0x1F)

/-- The integer that a literal denotes: blanks, a sign, then decimal digits or a marked base. -/
def parse? (t : Text) : Option Int :=
  let body := ((t.dropWhile isGap).reverse.dropWhile isGap).reverse
  match body with
  | [] => none
  | c :: rest =>
    if c.val = 0x2D then (unsigned? rest).map fun n => -(n : Int)
    else if c.val = 0x2B then (unsigned? rest).map Int.ofNat
    else (unsigned? body).map Int.ofNat

end BinaryLayout.Numeral
