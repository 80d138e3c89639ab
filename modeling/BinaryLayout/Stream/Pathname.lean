import BinaryLayout.Text.Utf8

/-!
# Path names

A path is written as a text and stands for bytes, its text in UTF-8. Bytes that are no UTF-8 can
be written too: each of them has a surrogate as its escape. A path is a row of names with
separators between them.
-/
namespace BinaryLayout.Pathname

/-- The code point that a byte beyond ASCII is escaped as. -/
def escape (b : UInt8) : CodePoint := ⟨0xDC00 + b.toNat, by have := b.toNat_lt; omega⟩

/-- The byte that a code point is the escape of. -/
def escaped? (c : CodePoint) : Option UInt8 :=
  if 0xDC80 ≤ c.val ∧ c.val ≤ 0xDCFF then some (UInt8.ofNat (c.val - 0xDC00)) else none

/-- The bytes of a path, `position` code points being encoded already. What is refused is a row
of surrogates from the first one on that is no escape. -/
def encodeFrom (position : Nat) : Text → Except Utf8.SurrogateRun Bytes
  | [] => .ok []
  | c :: rest =>
    match escaped? c with
    | some b => (b :: ·) <$> encodeFrom (position + 1) rest
    | none =>
      if c.isSurrogate then
        .error ⟨position, 1 + (rest.takeWhile CodePoint.isSurrogate).length, c⟩
      else (Utf8.encodeCodePoint c ++ ·) <$> encodeFrom (position + 1) rest

/-- The bytes of a path. -/
def encode (path : Text) : Except Utf8.SurrogateRun Bytes := encodeFrom 0 path

/-- The text of the bytes of a path, with escapes where they are no UTF-8. -/
def decode : Bytes → Text
  | [] => []
  | b :: rest =>
    match Utf8.lead? b with
    | none => escape b :: decode rest
    | some lead =>
      let count := Utf8.countTails lead.tails lead.low lead.high rest
      if count = lead.tails then
        Utf8.assemble lead.bits (rest.take count) :: decode (rest.drop count)
      else escape b :: decode rest
termination_by data => data.length
decreasing_by
  · simp
  · simp only [List.length_drop, List.length_cons]
    omega
  · simp

def separator : UInt8 := 0x2F

/-- What stands between the separators. -/
def splitOn [DecidableEq α] (mark : α) : List α → List (List α)
  | [] => [[]]
  | c :: rest =>
    if c = mark then [] :: splitOn mark rest
    else
      match splitOn mark rest with
      | [] => [[c]]
      | first :: others => (c :: first) :: others

/-- The separators that a path keeps at its start: two of them are not the same as one, and more
are. -/
def root (path : Text) : Text :=
  let slash := CodePoint.ofChar '/'
  let count := (path.takeWhile (· = slash)).length
  List.replicate (if count = 2 then 2 else min count 1) slash

/-- The path without names that say nothing: empty ones, and those of the directory itself. -/
def tidy (path : Text) : Text :=
  let names := (splitOn (CodePoint.ofChar '/') path).filter fun name =>
    !name.isEmpty && name ≠ Text.ofString "."
  match root path ++ Text.intercalate (Text.ofString "/") names with
  | [] => Text.ofString "."
  | tidied => tidied

end BinaryLayout.Pathname
