import BinaryLayout.Fault

/-!
# Descriptors

A descriptor is a mark for the byte order, if any, and then fields: a count in ASCII digits, if
any, and the letter of a type, with blanks around both. Every character must belong to some
field, so the first one that does not is where the descriptor is refused.
-/
namespace BinaryLayout.Descriptor

/-- A field as it is written at the start of a text. -/
structure Lexeme where
  digits : Text
  specifier : Specifier
  /-- The text from the first digit, or from the letter if there is none. -/
  fromCount : Text
  /-- What follows the field and the blanks after it. -/
  rest : Text

/-- The field at the start of a text. -/
def lexeme? (t : Text) : Option Lexeme :=
  let fromCount := t.trimStart
  match fromCount.dropWhile CodePoint.isAsciiDigit with
  | [] => none
  | c :: rest =>
    (Specifier.ofLetter? c).map fun s =>
      ⟨fromCount.takeWhile CodePoint.isAsciiDigit, s, fromCount, Text.trimStart rest⟩

/-- A field is at least its letter. -/
theorem length_rest_lt {t : Text} {l : Lexeme} (h : lexeme? t = some l) :
    l.rest.length < t.length := by
  unfold lexeme? at h
  simp only at h
  split at h
  · cases h
  · next c rest hd =>
    rw [Option.map_eq_some_iff] at h
    obtain ⟨s, -, rfl⟩ := h
    have h1 : (c :: rest).length ≤ t.trimStart.length := by
      rw [← hd]
      exact (List.dropWhile_sublist _).length_le
    have h2 := t.length_trimStart_le
    have h3 := Text.length_trimStart_le rest
    simp only [List.length_cons] at h1 ⊢
    omega

/-- The count of a field; without digits there is one element. -/
def Lexeme.count? (l : Lexeme) : Except Fault Nat :=
  if l.digits = [] then .ok 1
  else if Numeral.digitLimit < l.digits.length then .error (.countTooLong l.digits.length)
  else .ok (Numeral.ofAsciiDigits l.digits)

/-- The fields of `t`, which is what is left of the whole descriptor. -/
def tokens (whole t : Text) : Except Fault (List Token) :=
  match _h : lexeme? t with
  | none =>
    if t = [] then .ok []
    else .error (.unexpectedCharacter whole (whole.length - t.length))
  | some l => do
    let count ← l.count?
    if count = 0 then .error (.zeroCount whole (whole.length - l.fromCount.length))
    else
      let others ← tokens whole l.rest
      return ⟨count, .known l.specifier⟩ :: others
termination_by t.length
decreasing_by
  have := length_rest_lt _h
  omega

/-- The byte order of a descriptor and the text behind its mark. -/
def splitOrder : Text → ByteOrder × Text
  | [] => (.default, [])
  | c :: rest =>
    match ByteOrder.ofMark? c with
    | some order => (order, rest)
    | none => (.default, c :: rest)

/-- The format that a descriptor denotes. Blanks around it do not matter, but the format keeps
the text as it was given. -/
def compile (descriptor : Text) : Except Fault Format := do
  let whole := descriptor.trim
  let (order, fields) := splitOrder whole
  return ⟨order, ← tokens whole fields, descriptor⟩

end BinaryLayout.Descriptor
