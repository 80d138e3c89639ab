import BinaryLayout.Proofs.EncodableValues
import Mathlib.Data.Int.ConditionallyCompleteOrder
import Mathlib.Order.Interval.Set.Defs

/-!
# Ranges of integer fields

An integer field of so many bytes holds the numbers between two powers of two: those of a two's
complement if its type has a sign, and the numbers from zero on if it has none. Its bytes are the
base-256 digits of the residue of the number, and every byte string of the size is the bytes of
exactly one number of the range.
-/
namespace BinaryLayout

namespace Word

lemma modulus_eq (width : ℕ) : 256 ^ width = 2 ^ (8 * width) := by
  rw [pow_mul]
  norm_num

/-- Half of the numbers of a width that is not zero are negative if there is a sign. -/
lemma half_modulus {width : ℕ} (h : 0 < width) : 256 ^ width / 2 = 2 ^ (8 * width - 1) := by
  have hsucc : 8 * width = 8 * width - 1 + 1 := by omega
  rw [modulus_eq, hsucc, pow_succ, Nat.mul_div_cancel _ two_pos, Nat.add_sub_cancel]

/-- A digit is what the number has of multiples of its weight, less those of higher weights. -/
lemma digits_eq_map (width n : ℕ) :
    digits width n = (List.range width).map fun i => UInt8.ofNat (n / 256 ^ i % 256) := by
  induction width generalizing n with
  | zero => rfl
  | succ width ih =>
    rw [digits, ih, List.range_succ_eq_map, List.map_cons, List.map_map]
    congr 1
    · rw [pow_zero, Nat.div_one]
    · refine List.map_congr_left fun i _ => ?_
      rw [Function.comp_apply, Nat.div_div_eq_div_mul, pow_succ']

end Word

/-- The numbers that an integer type is for. -/
def Specifier.range (s : Specifier) : Set ℤ :=
  if s.signed then Set.Ico (-2 ^ (8 * s.size - 1)) (2 ^ (8 * s.size - 1))
  else Set.Ico 0 (2 ^ (8 * s.size))

/-- The base-256 digits of a number in a field of the type, least significant first. A negative
number has those of what it is short of the modulus. -/
def Specifier.digits (s : Specifier) (n : ℤ) : Bytes :=
  (List.range s.size).map fun i => UInt8.ofNat ((n % 2 ^ (8 * s.size)).toNat / 256 ^ i % 256)

lemma Specifier.mem_range_iff (s : Specifier) (n : ℤ) :
    n ∈ s.range ↔ Word.Fits s.signed s.size n := by
  have hhalf := Word.half_modulus s.size_pos
  have hmodulus := Word.modulus_eq s.size
  unfold range Word.Fits Word.least Word.greatest
  cases s.signed with
  | false =>
    simp only [Bool.false_eq_true, if_false, Set.mem_Ico, hmodulus]
    push_cast
    omega
  | true =>
    simp only [if_true, Set.mem_Ico, hhalf]
    push_cast
    omega

instance (s : Specifier) (n : ℤ) : Decidable (n ∈ s.range) :=
  decidable_of_iff _ (s.mem_range_iff n).symm

/-- The digits of a number are the bytes of its field in the order that puts the least significant
one first. -/
lemma Specifier.arrange_digits (s : Specifier) (e : Endian) (n : ℤ) :
    e.arrange (s.digits n) = Word.encode e s.size n := by
  have hmodulus : ((256 ^ s.size : ℕ) : ℤ) = 2 ^ (8 * s.size) := by
    exact_mod_cast Word.modulus_eq s.size
  rw [digits, Word.encode, Word.digits_eq_map, hmodulus]

namespace Field

variable {s : Specifier}

lemma encode_of_mem_range (hs : s.kind = .int) (order : ByteOrder) {v : Value} {n : ℤ}
    (hv : v.int? = some n) (hn : n ∈ s.range) :
    encode s v order = .ok (order.endian.arrange (s.digits n)) := by
  have hfits := (s.mem_range_iff n).mp hn
  simp only [encode, hs, encodeInteger, hv, hfits, if_true, reportPacking, s.arrange_digits]

lemma encode_of_not_mem_range (hs : s.kind = .int) (order : ByteOrder) {v : Value} {n : ℤ}
    (hv : v.int? = some n) (hn : n ∉ s.range) :
    encode s v order =
      .error (Fault.unpackable v s (integerMisfit s order.endian n)).limited := by
  have hfits : ¬Word.Fits s.signed s.size n := fun h => hn ((s.mem_range_iff n).mpr h)
  simp only [encode, hs, encodeInteger, hv, hfits, if_false, reportPacking]

lemma mem_range_of_encode (hs : s.kind = .int) (order : ByteOrder) {v : Value} {n : ℤ}
    (hv : v.int? = some n) {raw : Bytes} (h : encode s v order = .ok raw) : n ∈ s.range := by
  by_contra hn
  rw [encode_of_not_mem_range hs order hv hn] at h
  cases h

lemma decode_of_length (hs : s.kind = .int) (order : ByteOrder) {b : Buffer}
    (hb : b.data.length = s.size) :
    decode s b order = .ok (.int (Word.decode order.endian s.signed b.data)) := by
  simp only [decode, hs, hb, if_true, decodeInteger]

end Field

/-- An integer whose text is within the digit limit can be shown, and so can a truth value. -/
lemma Value.showable_of_int? {v : Value} {n : ℤ} (hv : v.int? = some n)
    (hn : Numeral.Showable n) : v.showable = true := by
  cases v with
  | bool b => rfl
  | int m =>
    obtain rfl : m = n := Option.some.inj hv
    simp only [showable, hn, decide_true]
  | _ => cases hv

/-- An integer field takes exactly the numbers of the range of its type and refuses all others for
their size. The bytes are the digits of the number, with the end first that the byte order says, and
the number is read back from them. Every byte string of the size of the type is read as a number of
the range, whose bytes it is. -/
theorem Field.encode_int_iff {s : Specifier} (hs : s.kind = .int) (order : ByteOrder) :
    (∀ v n, v.int? = some n →
      ((∃ raw, encode s v order = .ok raw) ↔ n ∈ s.range) ∧
      (n ∉ s.range → Numeral.Showable n →
        encode s v order = .error (.unpackable v s (integerMisfit s order.endian n))) ∧
      ∀ raw, encode s v order = .ok raw → raw = order.endian.arrange (s.digits n) ∧
        ∀ holding, decode s (.whole holding raw) order = .ok (.int n)) ∧
    ∀ b : Buffer, b.data.length = s.size → ∃ n ∈ s.range,
      decode s b order = .ok (.int n) ∧ encode s (.int n) order = .ok b.data := by
  refine ⟨fun v n hv => ?_, fun b hb => ?_⟩
  · refine ⟨⟨fun ⟨raw, hraw⟩ => mem_range_of_encode hs order hv hraw,
      fun hn => ⟨_, encode_of_mem_range hs order hv hn⟩⟩, fun hn hshow => ?_, fun raw hraw => ?_⟩
    · rw [encode_of_not_mem_range hs order hv hn,
        (Fault.Unfit.unpackable s _).limited (v.showable_of_int? hv hshow)]
    · have hn := mem_range_of_encode hs order hv hraw
      obtain rfl := Except.ok.inj (hraw.symm.trans (encode_of_mem_range hs order hv hn))
      refine ⟨rfl, fun holding => ?_⟩
      rw [s.arrange_digits, decode_of_length hs order (Word.length_encode order.endian s.size n)]
      have hback := Word.decode_encode order.endian s.size_pos ((s.mem_range_iff n).mp hn)
      exact congrArg (fun m => Except.ok (Value.int m)) hback
  · have hwidth : 0 < b.data.length := hb ▸ s.size_pos
    have hfits := Word.fits_decode order.endian s.signed hwidth
    have hback := Word.encode_decode order.endian s.signed b.data
    rw [hb] at hfits hback
    have hmem := (s.mem_range_iff _).mpr hfits
    refine ⟨_, hmem, decode_of_length hs order hb, ?_⟩
    rw [encode_of_mem_range hs order rfl hmem, s.arrange_digits, hback]

/-- A negative short in big endian, the first number behind the greatest one, and two bytes that are
only the highest bit. -/
theorem Field.encode_int16_iff :
    encode .int16 (.int (-2)) .bigEndian = .ok [0xFF, 0xFE] ∧
      decode .int16 (.ofBytes [0xFF, 0xFE]) .bigEndian = .ok (.int (-2)) ∧
      encode .int16 (.int 32768) .bigEndian =
        .error (.unpackable (.int 32768) .int16 (.outside "'h'" (-32768) 32767)) ∧
      ∃ n ∈ Specifier.int16.range, decode .int16 (.ofBytes [0x80, 0]) .bigEndian = .ok (.int n) ∧
        encode .int16 (.int n) .bigEndian = .ok [0x80, 0] := by
  obtain ⟨hencode, hdecode⟩ := encode_int_iff (show Specifier.int16.kind = .int from rfl) .bigEndian
  obtain ⟨hrange, -, hdigits⟩ := hencode (.int (-2)) (-2) rfl
  obtain ⟨raw, hraw⟩ := hrange.mpr (by decide)
  obtain ⟨rfl, hback⟩ := hdigits raw hraw
  have hrefused := (hencode (.int 32768) 32768 rfl).2.1 (by decide)
    (by decide +kernel)
  exact ⟨hraw, hback _, hrefused, hdecode (.ofBytes [0x80, 0]) rfl⟩

end BinaryLayout
