import BinaryLayout.Proofs.Refusals
import BinaryLayout.Session

/-!
# Values that have bytes

A type takes some values and refuses all others, whatever the byte order is. A value that is
refused is named by its fault, but a message that would show an integer beyond the digit limit
cannot be written, and then the refusal is for that. A text that holds surrogates is a string
without a binary form; it is refused for its surrogates. The other way round a number is decoded
from bytes of its own length only, while a character is content with the first of any.
-/
namespace BinaryLayout

/-! ## What is taken -/

namespace Specifier

/-- An element has a value of its own: it is neither padding nor a byte of a string. -/
def Scalar (s : Specifier) : Prop := s.kind ≠ .pad ∧ s.kind ≠ .string

/-- The number is not too large for a real field of the type. -/
def HasRoomFor (s : Specifier) (x : Binary64) : Prop :=
  s.size = 4 → ∃ pattern, x.narrow? = some pattern

/-- The value has bytes in one element of the type. -/
def Takes (s : Specifier) (v : Value) : Prop :=
  match s.kind with
  | .char => ∃ b, v.byte? = some b
  | .int => ∃ n, v.int? = some n ∧ Word.Fits s.signed s.size n
  | .real => ∃ x, Field.double? v = some x ∧ s.HasRoomFor x
  | .pad | .string => False

lemma size_of_char {s : Specifier} (hc : s.kind = .char) : s.size = 1 := by
  cases s <;> first | rfl | cases hc

end Specifier

/-- The least positive integer that no message can show. -/
def Numeral.unshowable : ℤ := 10 ^ digitLimit

lemma Numeral.pow_le_unshowable {k : ℕ} (h : k ≤ digitLimit) : 10 ^ k ≤ unshowable :=
  pow_le_pow_right₀ (by decide) h

lemma Numeral.not_showable_unshowable : ¬Showable unshowable := by
  unfold Showable unshowable
  simp only [Int.natAbs_pow, Int.reduceAbs, lt_self_iff_false, not_false_iff]

namespace Value

/-- The value is a text or bytes. -/
def Stringlike : Value → Prop
  | .text _ | .buffer _ => True
  | _ => False

/-- The bytes that a string stands for: those of an encoded text, or its own. -/
def BinaryForm (data : Bytes) : Value → Prop
  | .text t => Utf8.Encodable t ∧ Utf8.bytes t = data
  | .buffer b => b.data = data
  | _ => False

/-- A value that messages can show and that, if it is a text, can be encoded. -/
structure Plain (v : Value) : Prop where
  showable : v.showable = true
  encodable : ∀ t, v = .text t → Utf8.Encodable t

lemma showable_of_lt {n : ℤ} (h : n.natAbs < 10 ^ 3) : showable (.int n) = true := by
  have hlimit : 10 ^ 3 ≤ 10 ^ Numeral.digitLimit :=
    Nat.pow_le_pow_right (by decide) (by decide)
  have hshowable : Numeral.Showable n := h.trans_le hlimit
  simp only [showable, hshowable, decide_true]

end Value

/-- The value has bytes in the field. -/
def FieldLayout.Takes (e : FieldLayout) (v : Value) : Prop :=
  match e.specifier.kind with
  | .string => ∃ data, v.BinaryForm data
  | _ => e.specifier.Takes v

/-! ## Faults about a value -/

/-- The outcome of an operation does not depend on what is logged on the way. -/
lemma Session.outcome_report (outcome : Except Fault α) (session : Session) :
    ((report outcome).run.run session).1 = outcome := by
  cases outcome <;> rfl

namespace Fault

/-- The fault says of a value that it has no bytes in a field. -/
inductive Unfit (v : Value) : Fault → Prop where
  | notByte : Unfit v (.notByte v)
  | notString : Unfit v (.notString v)
  | unpackable (s : Specifier) (misfit : Misfit) : Unfit v (.unpackable v s misfit)

variable {v : Value} {fault : Fault}

lemma Unfit.limited (h : Unfit v fault) (hv : v.showable = true) : fault.limited = fault := by
  cases h <;> simp only [Fault.limited, hv, if_true]

lemma Unfit.limited_of_not_showable (h : Unfit v fault) (hv : v.showable = false) :
    ∃ misfit?, fault.limited = .unshowable misfit? := by
  cases h <;> simp [Fault.limited, hv]

end Fault

open Fault

/-! ## Scalars -/

namespace Field

variable {s : Specifier} {v : Value} {order : ByteOrder}

lemma encodeInteger_cases (s : Specifier) (e : Endian) (v : Value) :
    (∃ n raw, v.int? = some n ∧ Word.Fits s.signed s.size n ∧ encodeInteger s e v = .ok raw) ∨
      (∀ n, v.int? = some n → ¬Word.Fits s.signed s.size n) ∧
        ∃ misfit, encodeInteger s e v = .error misfit := by
  unfold encodeInteger
  cases hn : v.int? with
  | none => exact .inr ⟨nofun, _, rfl⟩
  | some n =>
    by_cases hfits : Word.Fits s.signed s.size n
    · exact .inl ⟨n, _, rfl, hfits, if_pos hfits⟩
    · refine .inr ⟨fun m hm => ?_, _, if_neg hfits⟩
      rwa [← Option.some.inj hm]

lemma encodeReal_cases (s : Specifier) (e : Endian) (v : Value) :
    (∃ x raw, double? v = some x ∧ s.HasRoomFor x ∧ encodeReal s e v = .ok raw) ∨
      (∀ x, double? v = some x → ¬s.HasRoomFor x) ∧
        ∃ misfit, encodeReal s e v = .error misfit := by
  unfold encodeReal encodeSingle Specifier.HasRoomFor
  cases hx : double? v with
  | none => exact .inr ⟨nofun, _, rfl⟩
  | some x =>
    by_cases hsingle : s.size = 4
    · simp only [hsingle, if_true, true_imp_iff]
      cases hnarrow : x.narrow? with
      | some pattern => exact .inl ⟨x, _, rfl, ⟨pattern, hnarrow⟩, rfl⟩
      | none =>
        refine .inr ⟨fun y hy => ?_, _, rfl⟩
        rw [← Option.some.inj hy, hnarrow]
        simp
    · simp only [hsingle, if_false, false_imp_iff]
      exact .inl ⟨x, _, rfl, trivial, rfl⟩

/-- An element is encoded when its type takes the value, and otherwise refused with a fault about
the value. -/
lemma encode_cases (hs : s.Scalar) (v : Value) (order : ByteOrder) :
    (s.Takes v ∧ ∃ raw, encode s v order = .ok raw) ∨
      ¬s.Takes v ∧ ∃ fault, Unfit v fault ∧ encode s v order = .error fault.limited := by
  unfold Specifier.Takes encode
  cases hk : s.kind with
  | pad => exact absurd hk hs.1
  | string => exact absurd hk hs.2
  | char =>
    cases hb : v.byte? with
    | some b => exact .inl ⟨⟨b, rfl⟩, _, rfl⟩
    | none =>
      refine .inr ⟨?_, _, .notByte, rfl⟩
      rintro ⟨b, ⟨⟩⟩
  | int =>
    obtain ⟨n, raw, hn, hfits, hraw⟩ | ⟨hnone, misfit, hmisfit⟩ :=
      encodeInteger_cases s order.endian v
    · exact .inl ⟨⟨n, hn, hfits⟩, raw, by simp only [hraw, reportPacking]⟩
    · refine .inr ⟨?_, _, .unpackable s misfit, by simp only [hmisfit, reportPacking]⟩
      rintro ⟨n, hn, hfits⟩
      exact hnone n hn hfits
  | real =>
    obtain ⟨x, raw, hx, hnarrow, hraw⟩ | ⟨hnone, misfit, hmisfit⟩ :=
      encodeReal_cases s order.endian v
    · exact .inl ⟨⟨x, hx, hnarrow⟩, raw, by simp only [hraw, reportPacking]⟩
    · refine .inr ⟨?_, _, .unpackable s misfit, by simp only [hmisfit, reportPacking]⟩
      rintro ⟨x, hx, hroom⟩
      exact hnone x hx hroom

lemma encode_of_not_scalar (hs : ¬s.Scalar) (v : Value) (order : ByteOrder) :
    encode s v order = .error (.noScalarEncoding s) := by
  unfold encode
  cases hk : s.kind with
  | pad | string => rfl
  | char | int | real => simp [Specifier.Scalar, hk] at hs

lemma scalar_of_takes (h : s.Takes v) : s.Scalar := by
  unfold Specifier.Takes at h
  constructor <;> intro hk <;> simp [hk] at h

theorem exists_encode_iff : (∃ raw, encode s v order = .ok raw) ↔ s.Takes v := by
  by_cases hs : s.Scalar
  · obtain ⟨htakes, hraw⟩ | ⟨hnone, fault, -, hfault⟩ := encode_cases hs v order
    · exact iff_of_true hraw htakes
    · refine iff_of_false (fun ⟨raw, hraw⟩ => ?_) hnone
      cases hfault.symm.trans hraw
  · refine iff_of_false (fun ⟨raw, hraw⟩ => ?_) fun htakes => hs (scalar_of_takes htakes)
    cases (encode_of_not_scalar hs v order).symm.trans hraw

/-- A refused element is refused with a fault about the value, as far as that can be shown. -/
lemma limited_of_encode (hs : s.Scalar) {fault : Fault} (h : encode s v order = .error fault) :
    ∃ cause, Unfit v cause ∧ fault = cause.limited := by
  obtain ⟨-, raw, hraw⟩ | ⟨-, cause, hcause, hfault⟩ := encode_cases hs v order
  · cases hraw.symm.trans h
  · exact ⟨cause, hcause, (Except.error.inj (hfault.symm.trans h)).symm⟩

/-- An element of a type that takes its value fills the field, and a value that is not taken is
named by the fault. Padding and strings have no elements. What is not named is a value with an
integer in it that no message can show: then the fault is that there is no message. -/
theorem encode_total (s : Specifier) (v : Value) (order : ByteOrder) :
    (∀ session, ((Session.encode s v order).run.run session).1 = encode s v order) ∧
    ((∃ raw, encode s v order = .ok raw) ↔ s.Takes v) ∧
    (∀ raw, encode s v order = .ok raw → raw.length = s.size) ∧
    ∀ fault, encode s v order = .error fault →
      (¬s.Scalar ∧ fault = .noScalarEncoding s) ∨
      (s.Scalar ∧ v.showable = true ∧ Unfit v fault) ∨
      (s.Scalar ∧ v.showable = false ∧ ∃ misfit?, fault = .unshowable misfit?) := by
  refine ⟨Session.outcome_report _, exists_encode_iff, fun raw h => length_of_encode h,
    fun fault h => ?_⟩
  by_cases hs : s.Scalar
  swap
  · exact .inl ⟨hs, (Except.error.inj ((encode_of_not_scalar hs v order).symm.trans h)).symm⟩
  obtain ⟨cause, hcause, rfl⟩ := limited_of_encode hs h
  cases hv : v.showable with
  | true =>
    rw [hcause.limited hv]
    exact .inr (.inl ⟨hs, rfl, hcause⟩)
  | false => exact .inr (.inr ⟨hs, rfl, hcause.limited_of_not_showable hv⟩)

/-- A number that is outside the range of its type is named, and one with more digits than a
message may have is not. -/
theorem encode_total_unshowable :
    (∃ fault, encode .int8 (.int 300) .littleEndian = .error fault ∧ Unfit (.int 300) fault) ∧
      ∃ misfit?, encode .int8 (.int Numeral.unshowable) .littleEndian =
        .error (.unshowable misfit?) := by
  have hrefused : ∀ n : ℤ, 127 < n → ∃ fault,
      encode .int8 (.int n) .littleEndian = .error fault ∧
        ((Value.showable (.int n) = true ∧ Unfit (.int n) fault) ∨
          (Value.showable (.int n) = false ∧ ∃ misfit?, fault = .unshowable misfit?)) := by
    intro n hn
    obtain ⟨-, htakes, -, hfault⟩ := encode_total .int8 (.int n) .littleEndian
    cases hencode : encode .int8 (.int n) .littleEndian with
    | ok raw =>
      obtain ⟨m, hm, hfits⟩ := htakes.mp ⟨raw, hencode⟩
      obtain rfl := Option.some.inj hm
      exact absurd hfits.2 (Int.not_le.mpr hn)
    | error fault =>
      obtain ⟨hscalar, -⟩ | ⟨-, hnamed⟩ | ⟨-, hlost⟩ := hfault fault hencode
      · exact absurd ⟨nofun, nofun⟩ hscalar
      · exact ⟨fault, rfl, .inl hnamed⟩
      · exact ⟨fault, rfl, .inr hlost⟩
  constructor
  · obtain ⟨fault, hfault, ⟨-, hunfit⟩ | ⟨hhidden, -⟩⟩ := hrefused 300 (by decide)
    · exact ⟨fault, hfault, hunfit⟩
    · rw [Value.showable_of_lt (by decide)] at hhidden
      cases hhidden
  · have hlarge : (127 : ℤ) < Numeral.unshowable :=
      (show (127 : ℤ) < 10 ^ 3 by decide).trans_le (Numeral.pow_le_unshowable (by decide))
    obtain ⟨fault, hfault, ⟨hshown, -⟩ | ⟨-, misfit?, rfl⟩⟩ := hrefused Numeral.unshowable hlarge
    · simp only [Value.showable, Numeral.not_showable_unshowable, decide_false] at hshown
      cases hshown
    · exact ⟨misfit?, hfault⟩

/-! ## Bytes of scalars -/

/-- A number is decoded from bytes that are exactly as long as its type, and other bytes are
refused for their length. -/
lemma decode_cases_of_number (hs : s.Scalar) (hc : s.kind ≠ .char) (b : Buffer)
    (order : ByteOrder) :
    (b.data.length = s.size ∧ ∃ v, decode s b order = .ok v) ∨
      b.data.length ≠ s.size ∧
        decode s b order = .error (.undecodable b.data s (.wrongLength s.size)) := by
  unfold decode
  cases hk : s.kind with
  | pad => exact absurd hk hs.1
  | string => exact absurd hk hs.2
  | char => exact absurd hk hc
  | int | real =>
    by_cases hl : b.data.length = s.size
    · exact .inl ⟨hl, _, if_pos hl⟩
    · exact .inr ⟨hl, if_neg hl⟩

lemma decode_cases_of_char (hc : s.kind = .char) (b : Buffer) (order : ByteOrder) :
    (∃ first rest, b.data = first :: rest ∧
      decode s b order = .ok (.text [CodePoint.ofByte first])) ∨
      b.data = [] ∧ decode s b order = .error (.emptyByte b.holding) := by
  unfold decode
  simp only [hc]
  cases hd : b.data with
  | nil => exact .inr ⟨rfl, rfl⟩
  | cons first rest => exact .inl ⟨first, rest, rfl, rfl⟩

lemma decode_of_not_scalar (hs : ¬s.Scalar) (b : Buffer) (order : ByteOrder) :
    decode s b order = .error (.noScalarDecoding s) := by
  unfold decode
  cases hk : s.kind with
  | pad | string => rfl
  | char | int | real => simp [Specifier.Scalar, hk] at hs

/-- What is decoded is the value of the first bytes, as many as the type has. -/
lemma decode_take {b : Buffer} (h : decode s b order = .ok v) :
    decode s (.ofBytes (b.data.take s.size)) order = .ok v := by
  by_cases hs : s.Scalar
  swap
  · cases (decode_of_not_scalar hs b order).symm.trans h
  by_cases hc : s.kind = .char
  · obtain ⟨first, rest, hdata, hdecode⟩ | ⟨-, hdecode⟩ := decode_cases_of_char hc b order
    · rw [← h, hdecode, hdata, Specifier.size_of_char hc]
      simp only [decode, hc, Buffer.ofBytes, Buffer.whole, List.take_succ_cons]
    · cases hdecode.symm.trans h
  · obtain ⟨hlength, -⟩ | ⟨-, hdecode⟩ := decode_cases_of_number hs hc b order
    · rw [← h, ← hlength, List.take_length]
      unfold decode
      cases hk : s.kind with
      | char => exact absurd hk hc
      | pad | int | real | string => rfl
    · cases hdecode.symm.trans h

/-- A number is decoded from bytes that are exactly as long as its type, and all other bytes are
named by the fault. A character is decoded from the first byte of any: what is behind it does not
count, and where there is no byte at all the fault is that of the missing byte. Padding and strings
have no elements. -/
theorem decode_total (s : Specifier) (b : Buffer) (order : ByteOrder) :
    (∀ session, ((Session.decode s (.buffer b) order).run.run session).1 = decode s b order) ∧
    ((∃ v, decode s b order = .ok v) ↔
      s.Scalar ∧ (b.data.length = s.size ∨ s.kind = .char ∧ s.size < b.data.length)) ∧
    (∀ v, decode s b order = .ok v → decode s (.ofBytes (b.data.take s.size)) order = .ok v) ∧
    ∀ fault, decode s b order = .error fault →
      (¬s.Scalar ∧ fault = .noScalarDecoding s) ∨
      (s.kind = .char ∧ b.data = [] ∧ fault = .emptyByte b.holding) ∨
      (s.Scalar ∧ s.kind ≠ .char ∧ b.data.length ≠ s.size ∧
        fault = .undecodable b.data s (.wrongLength s.size)) := by
  refine ⟨Session.outcome_report _, ?_⟩
  rw [and_left_comm]
  refine ⟨fun v => decode_take, ?_⟩
  by_cases hs : s.Scalar
  swap
  · rw [decode_of_not_scalar hs]
    exact ⟨iff_of_false nofun fun h => hs h.1, fun fault h =>
      .inl ⟨hs, (Except.error.inj h).symm⟩⟩
  by_cases hc : s.kind = .char
  · obtain ⟨first, rest, hdata, hdecode⟩ | ⟨hdata, hdecode⟩ := decode_cases_of_char hc b order
    · have hlength : b.data.length = rest.length + 1 := by rw [hdata, List.length_cons]
      rw [hdecode, hlength, Specifier.size_of_char hc]
      have hsome : 1 ≤ rest.length + 1 := Nat.le_add_left 1 rest.length
      exact ⟨iff_of_true ⟨_, rfl⟩ ⟨hs, hsome.eq_or_lt'.imp_right fun hmore => ⟨hc, hmore⟩⟩, nofun⟩
    · have hlength : b.data.length = 0 := by rw [hdata, List.length_nil]
      rw [hdecode, hlength, Specifier.size_of_char hc]
      exact ⟨iff_of_false nofun (by omega), fun fault h =>
        .inr (.inl ⟨hc, hdata, (Except.error.inj h).symm⟩)⟩
  · obtain ⟨hlength, v, hdecode⟩ | ⟨hlength, hdecode⟩ := decode_cases_of_number hs hc b order
    · rw [hdecode]
      exact ⟨iff_of_true ⟨v, rfl⟩ ⟨hs, .inl hlength⟩, nofun⟩
    · rw [hdecode]
      refine ⟨iff_of_false nofun ?_, fun fault h =>
        .inr (.inr ⟨hs, hc, hlength, (Except.error.inj h).symm⟩)⟩
      rintro ⟨-, hsize | ⟨hchar, -⟩⟩
      · exact hlength hsize
      · exact hc hchar

/-- A byte too few is named for a number. A character has no name for it, and takes a byte too
many for its first one. -/
theorem decode_total_character :
    decode .uint16 (.whole .fixed [1]) .bigEndian =
        .error (.undecodable [1] .uint16 (.wrongLength 2)) ∧
      decode .char (.whole .fixed []) .littleEndian = .error (.emptyByte .fixed) ∧
      decode .char (.whole .growable [0x41, 0x42]) .littleEndian = .ok (.text [0x41]) := by
  have hrefused : ∀ (s : Specifier) (b : Buffer) (order : ByteOrder),
      ¬(b.data.length = s.size ∨ s.kind = .char ∧ s.size < b.data.length) →
      ∃ fault, decode s b order = .error fault := by
    intro s b order h
    obtain ⟨-, hok, -, -⟩ := decode_total s b order
    cases hdecode : decode s b order with
    | ok v => exact absurd (hok.mp ⟨v, hdecode⟩).2 h
    | error fault => exact ⟨fault, rfl⟩
  refine ⟨?_, ?_, ?_⟩
  · obtain ⟨fault, hfault⟩ := hrefused .uint16 (.whole .fixed [1]) .bigEndian (by decide)
    obtain ⟨-, -, -, hcauses⟩ := decode_total .uint16 (.whole .fixed [1]) .bigEndian
    obtain ⟨hscalar, -⟩ | ⟨hchar, -⟩ | ⟨-, -, -, rfl⟩ := hcauses fault hfault
    · exact absurd ⟨nofun, nofun⟩ hscalar
    · cases hchar
    · exact hfault
  · obtain ⟨fault, hfault⟩ := hrefused .char (.whole .fixed []) .littleEndian (by decide)
    obtain ⟨-, -, -, hcauses⟩ := decode_total .char (.whole .fixed []) .littleEndian
    obtain ⟨hscalar, -⟩ | ⟨-, -, rfl⟩ | ⟨-, hchar, -⟩ := hcauses fault hfault
    · exact absurd ⟨nofun, nofun⟩ hscalar
    · exact hfault
    · exact absurd rfl hchar
  · obtain ⟨-, hok, htake, -⟩ :=
      decode_total .char (.whole .growable [0x41, 0x42]) .littleEndian
    obtain ⟨v, hv⟩ := hok.mpr ⟨⟨nofun, nofun⟩, by decide⟩
    rw [hv, ← htake v hv]
    rfl

/-! ## Strings -/

lemma stringBytes_eq_ok_iff {data : Bytes} : stringBytes v = .ok data ↔ v.BinaryForm data := by
  cases v with
  | text t =>
    rw [Value.BinaryForm, ← Utf8.encode_eq_ok_iff, stringBytes]
    cases Utf8.encode t <;> simp
  | buffer b => simp [stringBytes, Value.BinaryForm]
  | absent | bool | int | real | list | tuple | format =>
    exact iff_of_false (fun h => by cases h) id

/-- A string is refused for its surrogates only, and what is no string is named by the fault, as
far as it can be shown. -/
lemma stringBytes_eq_error {fault : Fault} (h : stringBytes v = .error fault) :
    (∃ t run, v = .text t ∧ Utf8.surrogateRun? t = some run ∧ fault = .surrogates run) ∨
      ¬v.Stringlike ∧ fault = (Fault.notString v).limited := by
  cases v with
  | text t =>
    cases hrun : Utf8.surrogateRun? t with
    | none => simp [stringBytes, Utf8.encode, hrun] at h
    | some run =>
      simp only [stringBytes, Utf8.encode, hrun, Except.error.injEq] at h
      exact .inl ⟨t, run, rfl, hrun, h.symm⟩
  | buffer b => cases h
  | absent | bool | int | real | list | tuple | format =>
    exact .inr ⟨id, (Except.error.inj h).symm⟩

lemma sliceTo_of_nonneg {data : Bytes} {width : ℤ} (hw : 0 ≤ width) :
    data.sliceTo width = data.take width.toNat := by
  unfold Bytes.sliceTo Bytes.place
  rw [if_neg (by omega), ← List.take_eq_take_min]

lemma encodeString_eq_ok_iff {width : ℤ} {raw : Bytes} :
    encodeString v width = .ok raw ↔ ∃ data, v.BinaryForm data ∧ raw = data.sliceTo width := by
  simp only [← stringBytes_eq_ok_iff, encodeString]
  cases stringBytes v <;> simp [Except.map, eq_comm]

lemma stringBytes_of_encodeString {width : ℤ} {fault : Fault}
    (h : encodeString v width = .error fault) : stringBytes v = .error fault := by
  unfold encodeString at h
  cases hbytes : stringBytes v with
  | ok data => rw [hbytes] at h; cases h
  | error other => rw [hbytes] at h; exact congrArg _ (Except.error.inj h)

/-- A string field takes what fits of the bytes that a string stands for. A text is refused for
its surrogates alone, and everything that is neither a text nor bytes is refused by name, unless
no message can show it. -/
theorem encodeString_total (v : Value) {width : ℤ} (hw : 0 ≤ width) :
    (∀ session, ((Session.encodeString v width).run.run session).1 = encodeString v width) ∧
    (∀ raw, encodeString v width = .ok raw ↔
      ∃ data, v.BinaryForm data ∧ raw = data.take width.toNat) ∧
    (∀ raw, encodeString v width = .ok raw → (raw.length : ℤ) ≤ width) ∧
    ∀ fault, encodeString v width = .error fault →
      (∃ t run, v = .text t ∧ ¬Utf8.Encodable t ∧ Utf8.surrogateRun? t = some run ∧
        fault = .surrogates run) ∨
      (¬v.Stringlike ∧ v.showable = true ∧ fault = .notString v) ∨
      (¬v.Stringlike ∧ v.showable = false ∧ fault = .unshowable none) := by
  refine ⟨Session.outcome_report _, fun raw => ?_, fun raw h => length_encodeString_le hw h,
    fun fault h => ?_⟩
  · simp only [encodeString_eq_ok_iff, sliceTo_of_nonneg hw]
  obtain ⟨t, run, rfl, hrun, rfl⟩ | ⟨hother, rfl⟩ :=
    stringBytes_eq_error (stringBytes_of_encodeString h)
  · refine .inl ⟨t, run, rfl, fun ht => ?_, hrun, rfl⟩
    have hbytes := Utf8.encode_eq_ok_iff.mpr ⟨ht, rfl⟩
    simp [Utf8.encode, hrun] at hbytes
  · cases hv : v.showable with
    | true => exact .inr (.inl ⟨hother, rfl, by simp only [Fault.limited, hv, if_true]⟩)
    | false => exact .inr (.inr ⟨hother, rfl, by simp [Fault.limited, hv]⟩)

/-- A text is cut after one byte, and a surrogate alone is refused. -/
theorem encodeString_total_one_byte :
    encodeString (.text [0xE9, 0x41]) 1 = .ok [0xC3] ∧
      encodeString (.text [0xD800]) 1 = .error (.surrogates ⟨0, 1, 0xD800⟩) := by
  constructor
  · obtain ⟨-, hok, -⟩ := encodeString_total (.text [0xE9, 0x41]) (show (0 : ℤ) ≤ 1 by decide)
    exact (hok _).mpr ⟨[0xC3, 0xA9, 0x41], ⟨by simp [Utf8.Encodable]; decide, by decide⟩, rfl⟩
  · obtain ⟨-, hok, -, hfault⟩ := encodeString_total (.text [0xD800]) (show (0 : ℤ) ≤ 1 by decide)
    cases hencode : encodeString (.text [0xD800]) 1 with
    | ok raw =>
      obtain ⟨data, ⟨ht, -⟩, -⟩ := (hok raw).mp hencode
      exact absurd (ht 0xD800 List.mem_cons_self) (by decide)
    | error fault =>
      obtain ⟨t, run, ht, -, hrun, rfl⟩ | ⟨hother, -⟩ | ⟨hother, -⟩ := hfault fault hencode
      · obtain rfl := Value.text.inj ht
        obtain rfl := Option.some.inj hrun
        rfl
      · exact absurd trivial hother
      · exact absurd trivial hother

end Field

/-! ## Fields -/

namespace FieldLayout

variable {e : FieldLayout} {v : Value} {order : ByteOrder}

theorem exists_encode_iff : (∃ raw, e.encode order v = .ok raw) ↔ e.Takes v := by
  by_cases hs : e.specifier.kind = .string
  · simp only [encode, Takes, hs, Field.encodeString_eq_ok_iff]
    constructor
    · rintro ⟨_, data, hdata, -⟩
      exact ⟨data, hdata⟩
    · rintro ⟨data, hdata⟩
      exact ⟨_, data, hdata, rfl⟩
  · rw [encode_of_ne_string hs, Field.exists_encode_iff]
    unfold Takes
    split
    · next hk => exact absurd hk hs
    · rfl

lemma unfit_of_encode (he : e.specifier.kind ≠ .pad) (hv : v.Plain) {fault : Fault}
    (h : e.encode order v = .error fault) : Unfit v fault := by
  by_cases hs : e.specifier.kind = .string
  · simp only [encode, hs] at h
    obtain ⟨t, run, rfl, hrun, -⟩ | ⟨-, rfl⟩ :=
      Field.stringBytes_eq_error (Field.stringBytes_of_encodeString h)
    · have hbytes := Utf8.encode_eq_ok_iff.mpr ⟨hv.encodable t rfl, rfl⟩
      simp [Utf8.encode, hrun] at hbytes
    · rw [Unfit.notString.limited hv.showable]
      exact .notString
  · rw [encode_of_ne_string hs] at h
    obtain ⟨cause, hcause, rfl⟩ := Field.limited_of_encode ⟨he, hs⟩ h
    rw [hcause.limited hv.showable]
    exact hcause

end FieldLayout

end BinaryLayout
