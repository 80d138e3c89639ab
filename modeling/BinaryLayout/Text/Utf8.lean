import BinaryLayout.Bytes
import BinaryLayout.Number.Numeral

/-!
# UTF-8

Every code point but a surrogate has one encoded form of one to four bytes. Decoding is strict:
it stops at the first bytes that no encoded text contains and reports where they start and how
many of them could still have been the beginning of a code point.
-/
namespace BinaryLayout.Utf8

/-! ## Encoding -/

/-- A byte that continues a code point with its six lowest bits left of `shift`. -/
def tailByte (n shift : Nat) : UInt8 := UInt8.ofNat (0x80 + n / 2 ^ shift % 0x40)

/-- The encoded form of a code point. -/
def encodeCodePoint (c : CodePoint) : Bytes :=
  let n := c.val
  if n < 0x80 then [UInt8.ofNat n]
  else if n < 0x800 then [UInt8.ofNat (0xC0 + n / 2 ^ 6), tailByte n 0]
  else if n < 0x10000 then [UInt8.ofNat (0xE0 + n / 2 ^ 12), tailByte n 6, tailByte n 0]
  else [UInt8.ofNat (0xF0 + n / 2 ^ 18), tailByte n 12, tailByte n 6, tailByte n 0]

/-- Neighbouring surrogates of a text. -/
structure SurrogateRun where
  start : Nat
  length : Nat
  first : CodePoint
  deriving DecidableEq, Repr

/-- The first surrogates of a text, as many as stand side by side. -/
def surrogateRun? (t : Text) : Option SurrogateRun :=
  match t.dropWhile (!CodePoint.isSurrogate ·) with
  | [] => none
  | c :: rest =>
    some ⟨(t.takeWhile (!CodePoint.isSurrogate ·)).length,
      1 + (rest.takeWhile CodePoint.isSurrogate).length, c⟩

/-- The encoded form of a text, unless it holds surrogates. -/
def encode (t : Text) : Except SurrogateRun Bytes :=
  match surrogateRun? t with
  | some run => .error run
  | none => .ok (t.flatMap encodeCodePoint)

def SurrogateRun.message (run : SurrogateRun) : Text :=
  let rest : Text := ": surrogates not allowed"
  if run.length = 1 then
    .join ["'utf-8' codec can't encode character '\\u", Numeral.hexOfNat 4 run.first.val,
      "' in position ", Numeral.ofNat run.start, rest]
  else
    .join ["'utf-8' codec can't encode characters in position ", Numeral.ofNat run.start, "-",
      Numeral.ofNat (run.start + run.length - 1), rest]

/-! ## Decoding -/

/-- What the first byte of a code point says about the bytes that continue it: how many there
are, the bounds of the next one, and the highest bits of the code point. -/
structure Lead where
  tails : Nat
  low : Nat
  high : Nat
  bits : Nat
  deriving DecidableEq, Repr

/-- The reading of a first byte. The bounds keep out longer forms than needed, surrogates and
numbers beyond the code space. -/
def lead? (b : UInt8) : Option Lead :=
  let n := b.toNat
  if n < 0x80 then some ⟨0, 0x80, 0xBF, n⟩
  else if n < 0xC2 then none
  else if n < 0xE0 then some ⟨1, 0x80, 0xBF, n - 0xC0⟩
  else if n < 0xF0 then
    some ⟨2, if n = 0xE0 then 0xA0 else 0x80, if n = 0xED then 0x9F else 0xBF, n - 0xE0⟩
  else if n < 0xF5 then
    some ⟨3, if n = 0xF0 then 0x90 else 0x80, if n = 0xF4 then 0x8F else 0xBF, n - 0xF0⟩
  else none

/-- How many of the next `tails` bytes continue a code point; the bounds are for the first of
them. -/
def countTails : Nat → Nat → Nat → Bytes → Nat
  | 0, _, _, _ => 0
  | _ + 1, _, _, [] => 0
  | tails + 1, low, high, b :: rest =>
    if low ≤ b.toNat ∧ b.toNat ≤ high then 1 + countTails tails 0x80 0xBF rest else 0

/-- The code point with the given highest bits and continuing bytes. -/
def assemble (bits : Nat) (tails : Bytes) : CodePoint :=
  Fin.ofNat 0x110000 (tails.foldl (fun n b => n * 0x40 + b.toNat % 0x40) bits)

/-- Why bytes cannot be decoded. -/
inductive Problem where
  | invalidStart
  | invalidContinuation
  | unexpectedEnd
  deriving DecidableEq, Repr

/-- The first bytes that cannot be decoded. -/
structure DecodeFault where
  start : Nat
  length : Nat
  first : UInt8
  problem : Problem
  deriving DecidableEq, Repr

/-- The text of the bytes, `position` of them being decoded already. -/
def decodeFrom (position : Nat) : Bytes → Except DecodeFault Text
  | [] => .ok []
  | b :: rest =>
    match lead? b with
    | none => .error ⟨position, 1, b, .invalidStart⟩
    | some lead =>
      let count := countTails lead.tails lead.low lead.high rest
      if count = lead.tails then
        (assemble lead.bits (rest.take count) :: ·) <$>
          decodeFrom (position + 1 + count) (rest.drop count)
      else
        .error ⟨position, 1 + count, b,
          if rest.length ≤ count then .unexpectedEnd else .invalidContinuation⟩
termination_by data => data.length
decreasing_by
  simp only [List.length_drop, List.length_cons]
  omega

/-- The text that the bytes are the encoded form of. -/
def decode (data : Bytes) : Except DecodeFault Text := decodeFrom 0 data

def Problem.message : Problem → Text
  | .invalidStart => "invalid start byte"
  | .invalidContinuation => "invalid continuation byte"
  | .unexpectedEnd => "unexpected end of data"

def DecodeFault.message (fault : DecodeFault) : Text :=
  let subject : Text :=
    if fault.length = 1 then
      .join [" 0x", Numeral.hexOfNat 2 fault.first.toNat, " in position ",
        Numeral.ofNat fault.start]
    else
      .join ["s in position ", Numeral.ofNat fault.start, "-",
        Numeral.ofNat (fault.start + fault.length - 1)]
  .join ["'utf-8' codec can't decode byte", subject, ": ", fault.problem.message]

end BinaryLayout.Utf8
