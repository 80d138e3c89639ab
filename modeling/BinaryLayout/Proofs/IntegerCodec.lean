import BinaryLayout.Number.Word
import Mathlib.Algebra.Order.Ring.Int
import Mathlib.Tactic.NormNum
import Mathlib.Tactic.Ring

/-!
# Fixed-width integers and their bytes

The digits of a fixed width and the numbers that a field holds correspond one to one, for both
signs and both ends. Everything rests on the modulus being even, so that the residues of the
negative numbers are exactly the upper half.
-/
namespace BinaryLayout.Word

lemma two_mul_half {width : ℕ} (h : 0 < width) : 2 * (256 ^ width / 2) = 256 ^ width := by
  obtain ⟨w, rfl⟩ : ∃ w, width = w + 1 := ⟨width - 1, by omega⟩
  rw [pow_succ]
  omega

lemma ofDigits_digits_of_lt {width n : ℕ} (h : n < 256 ^ width) :
    ofDigits (digits width n) = n := by
  rw [ofDigits_digits, Nat.mod_eq_of_lt h]

lemma encode_natCast (e : Endian) {width n : ℕ} (h : n < 256 ^ width) :
    encode e width n = e.arrange (digits width n) := by
  have hr : (n : ℤ) % ((256 ^ width : ℕ) : ℤ) = n := by
    rw [← Int.natCast_mod, Nat.mod_eq_of_lt h]
  rw [encode, hr, Int.toNat_natCast]

lemma ofDigits_arrange_encode (e : Endian) {width n : ℕ} (h : n < 256 ^ width) :
    ofDigits (e.arrange (encode e width n)) = n := by
  rw [encode_natCast e h, Endian.arrange_arrange, ofDigits_digits_of_lt h]

lemma encode_ofDigits_arrange (e : Endian) (raw : Bytes) :
    encode e raw.length (ofDigits (e.arrange raw) : ℕ) = raw := by
  have h := ofDigits_lt (e.arrange raw)
  have hd := digits_ofDigits (e.arrange raw)
  rw [Endian.length_arrange] at h hd
  rw [encode_natCast e h, hd, Endian.arrange_arrange]

/-- The residue of a number is what its bytes denote without a sign. -/
lemma ofDigits_arrange_encode_int (e : Endian) (width : ℕ) (n : ℤ) :
    (ofDigits (e.arrange (encode e width n)) : ℤ) = n % ((256 ^ width : ℕ) : ℤ) := by
  have hpos : (0 : ℤ) < ((256 ^ width : ℕ) : ℤ) := by positivity
  have h0 := Int.emod_nonneg n hpos.ne'
  have hlt := Int.emod_lt_of_pos n hpos
  rw [encode, Endian.arrange_arrange, ofDigits_digits_of_lt (by omega), Int.toNat_of_nonneg h0]

/-- A number that a field holds is read back from its bytes. -/
theorem decode_encode (e : Endian) {signed : Bool} {width : ℕ} {n : ℤ} (hw : 0 < width)
    (h : Fits signed width n) : decode e signed (encode e width n) = n := by
  have hhalf := two_mul_half hw
  have hres := ofDigits_arrange_encode_int e width n
  obtain ⟨hl, hg⟩ := h
  unfold decode
  simp only [length_encode]
  cases signed with
  | false =>
    simp only [least, greatest, Bool.false_eq_true, if_false] at hl hg
    rw [Int.emod_eq_of_lt hl (by omega)] at hres
    simpa using hres
  | true =>
    simp only [least, greatest, if_true] at hl hg
    by_cases hn : 0 ≤ n
    · rw [Int.emod_eq_of_lt hn (by omega)] at hres
      rw [if_neg (by omega), hres]
    · rw [← Int.add_emod_right, Int.emod_eq_of_lt (by omega) (by omega)] at hres
      rw [if_pos ⟨rfl, by omega⟩]
      omega

theorem fits_decode (e : Endian) (signed : Bool) {raw : Bytes} (hw : 0 < raw.length) :
    Fits signed raw.length (decode e signed raw) := by
  have hhalf := two_mul_half hw
  have hlt := ofDigits_lt (e.arrange raw)
  rw [Endian.length_arrange] at hlt
  unfold Fits decode
  cases signed with
  | false =>
    simp only [least, greatest, Bool.false_eq_true, false_and, if_false]
    omega
  | true =>
    simp only [least, greatest, if_true, true_and]
    split <;> omega

/-- The number that bytes denote is written as these bytes. -/
theorem encode_decode (e : Endian) (signed : Bool) (raw : Bytes) :
    encode e raw.length (decode e signed raw) = raw := by
  unfold decode
  simp only
  split
  · have h := encode_ofDigits_arrange e raw
    rw [encode] at h ⊢
    rwa [Int.sub_emod_right]
  · exact encode_ofDigits_arrange e raw

end BinaryLayout.Word
