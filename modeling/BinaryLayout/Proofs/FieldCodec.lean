import BinaryLayout.Proofs.Fields
import BinaryLayout.Proofs.IntegerCodec
import BinaryLayout.Proofs.RealCodec
import BinaryLayout.Proofs.Utf8Codec

/-!
# Values and the bytes of their fields

Encoding never takes more bytes than the field has. What a field holds whole is given back by
reading it, and what is read from a field is encoded as the bytes it was read from. A signalling
NaN of single precision is the one value that does not come back, since it is made quiet.
-/
namespace BinaryLayout

lemma Specifier.eq_string {s : Specifier} (h : s.kind = .string) : s = .string := by
  cases s <;> first | rfl | cases h

namespace FieldLayout

/-- A field as a token makes it: it carries a value and is as wide as its type says, unless it is
a string. -/
structure Shaped (e : FieldLayout) : Prop where
  carries : e.specifier.kind ≠ .pad
  positive : 0 < e.size
  width : e.specifier.kind ≠ .string → e.size = e.specifier.size

/-- The value fits the field and loses nothing there. -/
def Holds (e : FieldLayout) : Value → Prop
  | .text t =>
    (e.specifier = .char ∧ ∃ c, t = [c] ∧ c.val < 0x100) ∨
    (e.specifier = .string ∧ Utf8.Encodable t ∧ ((Utf8.bytes t).length : ℤ) ≤ e.size)
  | .int n => e.specifier.kind = .int ∧ Word.Fits e.specifier.signed e.specifier.size n
  | .bool _ => e.specifier.kind = .int
  | .real x =>
    e.specifier = .float64 ∨ (e.specifier = .float32 ∧ x.IsSingle ∧ ¬x.Signalling)
  | _ => False

/-- What a field gives back of a value that it holds. A text is followed by zeros up to the width
of the field, and a truth value counts as a number. -/
def restored (e : FieldLayout) : Value → Value
  | .text t =>
    if e.specifier = .string then
      .text (t ++ List.replicate (e.size.toNat - (Utf8.bytes t).length) (.ofByte 0))
    else .text t
  | .bool b => .int (if b then 1 else 0)
  | v => v

/-- The bytes of a field are a signalling NaN of single precision. -/
def Signals (order : ByteOrder) (e : FieldLayout) (raw : Bytes) : Prop :=
  e.specifier = .float32 ∧
    FloatFormat.single.Signalling
      (Word.ofDigits (order.endian.arrange raw) % FloatFormat.single.signWeight)

end FieldLayout

namespace Field

/-! ## Lengths -/

lemma reportPacking_eq_ok {s : Specifier} {v : Value} {r : Except Misfit Bytes} {raw : Bytes}
    (h : reportPacking s v r = .ok raw) : r = .ok raw := by
  cases r with
  | ok other => cases h; rfl
  | error misfit => cases h

lemma length_encodeReal {s : Specifier} (hs : s.kind = .real) {e : Endian} {v : Value}
    {raw : Bytes} (h : encodeReal s e v = .ok raw) : raw.length = s.size := by
  unfold encodeReal encodeSingle at h
  split at h
  · cases h
  · split at h
    · next h4 =>
      split at h
      · cases h
        rw [Word.length_encode, h4]
      · cases h
    · next h4 =>
      cases h
      rw [Word.length_encode]
      cases s <;> first | rfl | exact absurd rfl h4 | cases hs

theorem length_of_encode {s : Specifier} {v : Value} {order : ByteOrder} {raw : Bytes}
    (h : encode s v order = .ok raw) : raw.length = s.size := by
  unfold encode at h
  split at h
  · next hs =>
    split at h
    · cases h
      cases s <;> first | rfl | cases hs
    · cases h
  · have h := reportPacking_eq_ok h
    unfold encodeInteger at h
    split at h
    · cases h
    · split at h
      · cases h
        exact Word.length_encode _ _ _
      · cases h
  · next hs => exact length_encodeReal hs (reportPacking_eq_ok h)
  · cases h
  · cases h

theorem length_encodeString_le {v : Value} {width : ℤ} (hw : 0 ≤ width) {raw : Bytes}
    (h : encodeString v width = .ok raw) : (raw.length : ℤ) ≤ width := by
  unfold encodeString at h
  cases hb : stringBytes v with
  | error fault => rw [hb] at h; cases h
  | ok data =>
    rw [hb] at h
    cases h
    change ((data.sliceTo width).length : ℤ) ≤ width
    unfold Bytes.sliceTo Bytes.place
    rw [List.length_take, if_neg (by omega)]
    omega

/-! ## Strings -/

lemma sliceTo_of_le {data : Bytes} {width : ℤ} (h : (data.length : ℤ) ≤ width) :
    data.sliceTo width = data := by
  unfold Bytes.sliceTo Bytes.place
  rw [if_neg (by omega), List.take_of_length_le (by omega)]

lemma encodeString_text {t : Text} {width : ℤ} (ht : Utf8.Encodable t)
    (hl : ((Utf8.bytes t).length : ℤ) ≤ width) :
    encodeString (.text t) width = .ok (Utf8.bytes t) := by
  have he : Utf8.encode t = .ok (Utf8.bytes t) := Utf8.encode_eq_ok_iff.mpr ⟨ht, rfl⟩
  simp only [encodeString, stringBytes, he, Except.map, sliceTo_of_le hl]

lemma decodeString_eq_ok_iff {raw : Bytes} {t : Text} :
    decodeString raw = .ok t ↔ Utf8.Encodable t ∧ Utf8.bytes t = raw := by
  rw [← Utf8.decode_eq_ok_iff, decodeString]
  split <;> simp_all

/-- Zeros behind a text are code points of their own. -/
lemma bytes_append_zeros (t : Text) (n : ℕ) :
    Utf8.bytes (t ++ List.replicate n (.ofByte 0)) = Utf8.bytes t ++ Bytes.zeros n := by
  have hz : Utf8.bytes (List.replicate n (.ofByte 0)) = Bytes.zeros n := by
    induction n with
    | zero => rfl
    | succ n ih =>
      rw [List.replicate_succ, Utf8.bytes, List.flatMap_cons, ← Utf8.bytes, ih]
      rfl
  rw [Utf8.bytes, List.flatMap_append, ← Utf8.bytes, ← Utf8.bytes, hz]

lemma encodable_append_zeros {t : Text} (h : Utf8.Encodable t) (n : ℕ) :
    Utf8.Encodable (t ++ List.replicate n (.ofByte 0)) := by
  intro c hc
  rcases List.mem_append.mp hc with hc | hc
  · exact h c hc
  · rw [(List.mem_replicate.mp hc).2]
    rfl

/-! ## Scalars -/

lemma ofByte_ofNat {c : CodePoint} (h : c.val < 0x100) :
    CodePoint.ofByte (UInt8.ofNat c.val) = c := by
  apply Fin.ext
  change (UInt8.ofNat c.val).toNat = c.val
  exact Utf8.toNat_ofNat h

lemma decode_encode_char (order : ByteOrder) {c : CodePoint} (h : c.val < 0x100) :
    encode .char (.text [c]) order = .ok [UInt8.ofNat c.val] ∧
      decode .char (.ofBytes [UInt8.ofNat c.val]) order = .ok (.text [c]) := by
  constructor
  · simp only [encode, Specifier.kind, Value.byte?, if_pos h]
  · simp only [decode, Specifier.kind, Buffer.ofBytes, Buffer.whole, ofByte_ofNat h]

lemma decode_encode_int (order : ByteOrder) {s : Specifier} (hs : s.kind = .int) {v : Value}
    {n : ℤ} (hv : v.int? = some n) (hn : Word.Fits s.signed s.size n) :
    ∃ raw, encode s v order = .ok raw ∧ decode s (.ofBytes raw) order = .ok (.int n) := by
  refine ⟨Word.encode order.endian s.size n, ?_, ?_⟩
  · simp only [encode, hs, encodeInteger, hv, if_pos hn, reportPacking]
  · simp only [decode, hs, Buffer.ofBytes, Buffer.whole, Word.length_encode, if_true,
      decodeInteger, Word.decode_encode _ s.size_pos hn]

lemma decode_encode_double (order : ByteOrder) (x : Binary64) :
    ∃ raw, encode .float64 (.real x) order = .ok raw ∧
      decode .float64 (.ofBytes raw) order = .ok (.real x) := by
  have hx : x.bits.toNat < 256 ^ 8 := x.bits.toNat_lt
  refine ⟨Word.encode order.endian 8 x.bits.toNat, rfl, ?_⟩
  simp only [decode, Specifier.kind, Buffer.ofBytes, Buffer.whole, Word.length_encode,
    Specifier.size, if_true, decodeReal, Word.ofDigits_arrange_encode _ hx]
  simp

lemma decode_encode_single (order : ByteOrder) {x : Binary64} (hs : x.IsSingle)
    (hq : ¬x.Signalling) :
    ∃ raw, encode .float32 (.real x) order = .ok raw ∧
      decode .float32 (.ofBytes raw) order = .ok (.real x) := by
  obtain ⟨p, hp, hn, hw⟩ := Binary64.exists_widen_eq hs hq
  have hp4 : p < 256 ^ 4 := hp
  refine ⟨Word.encode order.endian 4 p, ?_, ?_⟩
  · simp only [encode, Specifier.kind, encodeReal, double?, Specifier.size, if_true, encodeSingle,
      hn, reportPacking]
  · simp only [decode, Specifier.kind, Buffer.ofBytes, Buffer.whole, Word.length_encode,
      Specifier.size, if_true, decodeReal, Word.ofDigits_arrange_encode _ hp4, hw]

/-- What is read from the bytes of an element is written as these bytes. -/
theorem encode_decode {order : ByteOrder} {s : Specifier} {raw : Bytes} {v : Value}
    (hl : raw.length = s.size)
    (hq : s = .float32 → ¬FloatFormat.single.Signalling
      (Word.ofDigits (order.endian.arrange raw) % FloatFormat.single.signWeight))
    (h : decode s (.ofBytes raw) order = .ok v) : encode s v order = .ok raw := by
  have hlt := Word.ofDigits_lt (order.endian.arrange raw)
  have hback := Word.encode_ofDigits_arrange order.endian raw
  rw [Endian.length_arrange] at hlt
  unfold decode at h
  cases hs : s.kind with
  | pad | string => rw [hs] at h; cases h
  | char =>
    obtain rfl : s = .char := by cases s <;> first | rfl | cases hs
    obtain ⟨b, rfl⟩ := List.length_eq_one_iff.mp hl
    cases h
    have hb : (CodePoint.ofByte b).val < 0x100 := b.toNat_lt
    rw [(decode_encode_char order hb).1]
    exact congrArg (fun c => Except.ok [c]) UInt8.ofNat_toNat
  | int =>
    simp only [hs, Buffer.ofBytes, Buffer.whole, hl, if_true] at h
    cases h
    have hf := Word.fits_decode order.endian s.signed (hl ▸ s.size_pos)
    rw [hl] at hf
    simp only [encode, hs, decodeInteger, encodeInteger, Value.int?, if_pos hf, reportPacking]
    rw [← hl, Word.encode_decode]
  | real =>
    simp only [hs, Buffer.ofBytes, Buffer.whole, hl, if_true] at h
    cases h
    by_cases h4 : s.size = 4
    · obtain rfl : s = .float32 := by
        cases s <;> first | rfl | exact absurd h4 (by decide) | cases hs
      rw [hl] at hlt hback
      have hn := Binary64.narrow?_widen hlt (hq rfl)
      simp only [encode, Specifier.kind, decodeReal, Specifier.size, if_true, encodeReal, double?,
        encodeSingle, hn, reportPacking]
      exact congrArg Except.ok hback
    · obtain rfl : s = .float64 := by cases s <;> first | rfl | exact absurd rfl h4 | cases hs
      rw [hl] at hlt hback
      have hbits : (UInt64.ofNat (Word.ofDigits (order.endian.arrange raw))).toNat =
          Word.ofDigits (order.endian.arrange raw) := UInt64.toNat_ofNat_of_lt hlt
      simp only [encode, Specifier.kind, decodeReal, Specifier.size, encodeReal, double?,
        reportPacking, if_false, Nat.reduceEqDiff, hbits]
      exact congrArg Except.ok hback

end Field

namespace FieldLayout

/-! ## Fields -/

lemma fits_truth {s : Specifier} (hs : s.kind = .int) (b : Bool) :
    Word.Fits s.signed s.size (if b then 1 else 0) := by
  cases s <;> first | exact absurd hs (by decide) | (cases b <;> decide)

lemma encode_of_ne_string {e : FieldLayout} (h : e.specifier.kind ≠ .string) (order : ByteOrder)
    (v : Value) : e.encode order v = Field.encode e.specifier v order := by
  unfold encode
  split
  · next hs => exact absurd hs h
  · rfl

lemma read_of_ne_string {e : FieldLayout} (h : e.specifier.kind ≠ .string) (order : ByteOrder)
    (raw : Bytes) : e.read order raw = Field.decode e.specifier (.ofBytes raw) order := by
  unfold read
  split
  · next hs => exact absurd hs h
  · rfl

theorem length_of_encode {e : FieldLayout} (he : e.Shaped) (hs : e.specifier.kind ≠ .string)
    {order : ByteOrder} {v : Value} {raw : Bytes} (h : e.encode order v = .ok raw) :
    (raw.length : ℤ) = e.size := by
  rw [encode_of_ne_string hs] at h
  rw [he.width hs, Field.length_of_encode h]

theorem length_of_encode_le {e : FieldLayout} (he : e.Shaped) {order : ByteOrder} {v : Value}
    {raw : Bytes} (h : e.encode order v = .ok raw) : (raw.length : ℤ) ≤ e.size := by
  by_cases hs : e.specifier.kind = .string
  · simp only [encode, hs] at h
    exact Field.length_encodeString_le he.positive.le h
  · exact (length_of_encode he hs h).le

/-- What a field holds is given back when the bytes that the value leaves alone are zeros. -/
theorem read_encode {e : FieldLayout} (he : e.Shaped) {v : Value} (hv : e.Holds v)
    (order : ByteOrder) :
    ∃ raw, e.encode order v = .ok raw ∧
      e.read order (raw ++ .zeros (e.size.toNat - raw.length)) = .ok (e.restored v) := by
  by_cases hs : e.specifier = .string
  · cases v with
    | text t =>
      obtain ⟨hc, -⟩ | ⟨-, ht, hl⟩ := hv
      · rw [hs] at hc
        cases hc
      refine ⟨Utf8.bytes t, ?_, ?_⟩
      · simp only [encode, hs, Specifier.kind, Field.encodeString_text ht hl]
      · have hread := Field.decodeString_eq_ok_iff.mpr
          ⟨Field.encodable_append_zeros ht (e.size.toNat - (Utf8.bytes t).length),
            Field.bytes_append_zeros t _⟩
        simp only [read, hs, Specifier.kind, hread, Except.map, restored, if_true]
    | real x => obtain hd | ⟨hf, -⟩ := hv <;> simp [hs] at *
    | int n => simp [Holds, hs, Specifier.kind] at hv
    | bool b => simp [Holds, hs, Specifier.kind] at hv
    | absent | buffer | list | tuple | format => exact hv.elim
  have hk : e.specifier.kind ≠ .string := fun hk => hs (Specifier.eq_string hk)
  have hscalar : ∃ raw, Field.encode e.specifier v order = .ok raw ∧
      Field.decode e.specifier (.ofBytes raw) order = .ok (e.restored v) := by
    cases v with
    | text t =>
      obtain ⟨hc, c, rfl, hlt⟩ | ⟨hc, -⟩ := hv
      · simp only [restored, hc, reduceCtorEq, if_false]
        exact ⟨_, Field.decode_encode_char order hlt⟩
      · exact absurd hc hs
    | int n => exact Field.decode_encode_int order hv.1 rfl hv.2
    | bool b => exact Field.decode_encode_int order hv rfl (fits_truth hv b)
    | real x =>
      obtain hd | ⟨hf, hx, hq⟩ := hv
      · rw [hd]
        exact Field.decode_encode_double order x
      · rw [hf]
        exact Field.decode_encode_single order hx hq
    | absent | buffer | list | tuple | format => exact hv.elim
  obtain ⟨raw, henc, hdec⟩ := hscalar
  rw [← encode_of_ne_string hk] at henc
  have hl := length_of_encode he hk henc
  have h0 : e.size.toNat - raw.length = 0 := by omega
  refine ⟨raw, henc, ?_⟩
  rw [h0, Bytes.zeros, List.replicate_zero, List.append_nil, read_of_ne_string hk, hdec]

/-- What is read from a field is written as the bytes it was read from. -/
theorem encode_read {e : FieldLayout} (he : e.Shaped) {order : ByteOrder} {raw : Bytes}
    (hl : (raw.length : ℤ) = e.size) (hq : ¬e.Signals order raw) {v : Value}
    (h : e.read order raw = .ok v) : e.encode order v = .ok raw := by
  by_cases hs : e.specifier.kind = .string
  · simp only [read, hs] at h
    cases ht : Field.decodeString raw with
    | error fault => rw [ht] at h; cases h
    | ok t =>
      rw [ht] at h
      cases h
      obtain ⟨henc, hb⟩ := Field.decodeString_eq_ok_iff.mp ht
      simp only [encode, hs]
      rw [Field.encodeString_text henc (by rw [hb, hl]), hb]
  · rw [read_of_ne_string hs] at h
    rw [encode_of_ne_string hs]
    have hlen : raw.length = e.specifier.size := by
      have := he.width hs
      omega
    exact Field.encode_decode hlen (fun hf hq' => hq ⟨hf, hq'⟩) h

end FieldLayout

theorem exists_plan_of_holds (order : ByteOrder) (given : ℕ) {fields : List FieldLayout}
    {values : List Value} (hv : List.Forall₂ FieldLayout.Holds fields values)
    (hs : ∀ e ∈ fields, e.Shaped) :
    ∃ writes, planFields order given fields values = .ok ⟨writes, []⟩ := by
  induction hv with
  | nil => exact ⟨[], rfl⟩
  | @cons e v fields values he _ ih =>
    obtain ⟨raw, henc, -⟩ := FieldLayout.read_encode (hs e List.mem_cons_self) he order
    obtain ⟨writes, hplan⟩ := ih fun e' he' => hs e' (List.mem_cons_of_mem _ he')
    exact ⟨_, planFields_cons_eq_ok.mpr ⟨v, values, raw, ⟨writes, []⟩, rfl, henc, hplan, rfl⟩⟩

end BinaryLayout
