import BinaryLayout.Proofs.EncodableValues
import BinaryLayout.Proofs.NearestPatterns

/-!
# Single-precision fields

A field of four bytes holds the single-precision number that is nearest to a double. Between two of
them it is the one with the even significand, and the sign is kept even where the number is lost to
zero. A finite double is refused just from the midpoint on that is behind the greatest number, where
the next pattern would be infinity. What the field gives back is a double again, with which the same
bytes are written, and greater doubles give back greater numbers.
-/
namespace BinaryLayout

namespace FloatFormat

/-- The number that a pattern with a sign stands for. -/
def signedValue (f : FloatFormat) (p : ℕ) : ℚ :=
  (if f.signWeight ≤ p then -1 else 1) * f.value (p % f.signWeight)

/-- Below the sign the pattern is less than infinity. -/
def IsFinite (f : FloatFormat) (p : ℕ) : Prop :=
  p < 2 * f.signWeight ∧ p % f.signWeight < f.infinity

/-- The finite pattern whose number is nearest to the given one, with an even significand if there
are two. -/
structure RoundsTo (f : FloatFormat) (r : ℚ) (p : ℕ) : Prop where
  finite : f.IsFinite p
  nearest : ∀ q, f.IsFinite q → |f.signedValue p - r| ≤ |f.signedValue q - r|
  even : ∀ q, f.IsFinite q → f.signedValue q ≠ f.signedValue p →
    |f.signedValue q - r| = |f.signedValue p - r| → Even (f.significand (p % f.signWeight))

def withSign (f : FloatFormat) (negative : Bool) (m : ℕ) : ℕ :=
  (if negative then f.signWeight else 0) + m

def signed (negative : Bool) (a : ℚ) : ℚ := (if negative then -1 else 1) * a

variable {f : FloatFormat} {negative : Bool} {m : ℕ}

lemma infinity_le_signWeight (f : FloatFormat) : f.infinity ≤ f.signWeight := by
  rw [infinity, signWeight, pow_add, Nat.mul_comm (2 ^ f.fractionBits)]
  exact Nat.mul_le_mul_right _ (Nat.sub_le _ _)

lemma withSign_mod (h : m < f.signWeight) : f.withSign negative m % f.signWeight = m := by
  unfold withSign
  cases negative with
  | false => simpa using Nat.mod_eq_of_lt h
  | true => simpa using Nat.mod_eq_of_lt h

lemma signWeight_le_withSign_iff (h : m < f.signWeight) :
    f.signWeight ≤ f.withSign negative m ↔ negative = true := by
  unfold withSign
  cases negative with
  | false => simpa using h
  | true => simp

lemma signedValue_withSign (h : m < f.signWeight) :
    f.signedValue (f.withSign negative m) = signed negative (f.value m) := by
  simp only [signedValue, signed, signWeight_le_withSign_iff h, withSign_mod h]

lemma isFinite_withSign (h : m < f.infinity) : f.IsFinite (f.withSign negative m) := by
  have hlt := h.trans_le f.infinity_le_signWeight
  refine ⟨?_, (withSign_mod hlt).symm ▸ h⟩
  unfold withSign
  cases negative <;> simp <;> omega

lemma exists_withSign {p : ℕ} (h : f.IsFinite p) :
    ∃ negative, ∃ m < f.infinity, p = f.withSign negative m := by
  obtain ⟨hlt, hfinite⟩ := h
  have hdivision := Nat.div_add_mod p f.signWeight
  by_cases hsign : f.signWeight ≤ p
  · refine ⟨true, p % f.signWeight, hfinite, ?_⟩
    have hone : p / f.signWeight = 1 := Nat.div_eq_of_lt_le (by omega) (by omega)
    rw [hone, Nat.mul_one] at hdivision
    simpa [withSign] using hdivision.symm
  · refine ⟨false, p % f.signWeight, hfinite, ?_⟩
    simp [withSign, Nat.mod_eq_of_lt (Nat.lt_of_not_le hsign)]

lemma abs_signed {a : ℚ} (h : 0 ≤ a) : |signed negative a| = a := by
  unfold signed
  cases negative <;> simp [abs_of_nonneg h]

lemma abs_signed_sub (a b : ℚ) : |signed negative a - signed negative b| = |a - b| := by
  unfold signed
  rw [← mul_sub, abs_mul]
  cases negative <;> simp

lemma abs_sub_le_signed {a b : ℚ} (ha : 0 ≤ a) (hb : 0 ≤ b) (negative negative' : Bool) :
    |a - b| ≤ |signed negative' a - signed negative b| := by
  have h := abs_abs_sub_abs_le_abs_sub (signed negative' a) (signed negative b)
  rwa [abs_signed ha, abs_signed hb] at h

lemma abs_signed_sub_of_ne {negative' : Bool} (h : negative' ≠ negative) {a b : ℚ} (ha : 0 ≤ a)
    (hb : 0 ≤ b) : |signed negative' a - signed negative b| = a + b := by
  obtain rfl : negative' = !negative := by cases negative <;> cases negative' <;> simp_all
  unfold signed
  cases negative with
  | false =>
    rw [← abs_neg]
    simpa [add_comm] using abs_of_nonneg (add_nonneg ha hb)
  | true => simpa using abs_of_nonneg (add_nonneg ha hb)

lemma even_significand (hf : 1 ≤ f.fractionBits) (h : Even m) : Even (f.significand m) := by
  have htwo : 2 ∣ 2 ^ f.fractionBits := dvd_pow_self 2 (by omega)
  have hrest : Even (m % 2 ^ f.fractionBits) := by
    rw [Nat.even_iff, Nat.mod_mod_of_dvd m htwo]
    exact Nat.even_iff.mp h
  unfold significand
  split
  · exact h
  · exact hrest.add (even_iff_two_dvd.mpr htwo)

/-- A number is rounded below its sign. -/
theorem roundsTo_of_rounded (hf : 1 ≤ f.fractionBits) {a : ℚ} (ha : 0 ≤ a) (h : f.Rounded a m)
    (hm : m < f.infinity) (negative : Bool) :
    f.RoundsTo (signed negative a) (f.withSign negative m) := by
  have hlt := hm.trans_le f.infinity_le_signWeight
  have hnear : ∀ k, |f.value m - a| ≤ |f.value k - a| := fun k => by
    by_cases hk : k = m
    · rw [hk]
    · exact (h.nearest hk).1
  refine ⟨isFinite_withSign hm, fun q hq => ?_, fun q hq hne htie => ?_⟩ <;>
    obtain ⟨negative', k, hk, rfl⟩ := exists_withSign hq <;>
    have hklt := hk.trans_le f.infinity_le_signWeight
  · rw [signedValue_withSign hlt, signedValue_withSign hklt, abs_signed_sub]
    exact (hnear k).trans (abs_sub_le_signed (f.value_nonneg k) ha negative negative')
  · rw [withSign_mod hlt]
    rw [signedValue_withSign hlt, signedValue_withSign hklt] at hne htie
    rw [abs_signed_sub] at htie
    have hsigned := abs_sub_le_signed (f.value_nonneg k) ha negative negative'
    rw [htie] at hsigned
    by_cases hkm : k = m
    · -- The same number with the other sign would be farther away, unless it is zero.
      rw [hkm] at hne htie
      have hother : negative' ≠ negative := fun heq => hne (by rw [heq])
      rw [abs_signed_sub_of_ne hother (f.value_nonneg m) ha] at htie
      have hbelow := hnear 0
      rw [f.value_zero, zero_sub, abs_neg, abs_of_nonneg ha, ← htie] at hbelow
      have hzero : f.value m = 0 := le_antisymm (by linarith) (f.value_nonneg m)
      exact absurd (by simp [signed, hzero]) hne
    · exact even_significand hf ((h.nearest hkm).2 (le_antisymm hsigned (hnear k)))

lemma signed_mono {a a' : ℚ} {m' : ℕ} (ha : 0 ≤ a) (ha' : 0 ≤ a') (h : f.Rounded a m)
    (h' : f.Rounded a' m') {negative' : Bool} (hle : signed negative a ≤ signed negative' a') :
    signed negative (f.value m) ≤ signed negative' (f.value m') := by
  have hv := f.value_nonneg m
  have hv' := f.value_nonneg m'
  unfold signed at hle ⊢
  cases negative <;> cases negative' <;>
    simp only [Bool.false_eq_true, if_true, if_false, one_mul, neg_mul] at hle ⊢
  · exact f.value_strictMono.monotone (h.mono h' hle)
  · obtain rfl : a = 0 := by linarith
    obtain rfl : a' = 0 := by linarith
    rw [h.eq_zero, h'.eq_zero, value_zero, neg_zero]
  · linarith
  · exact neg_le_neg (f.value_strictMono.monotone (h'.mono h (by linarith)))

end FloatFormat

namespace Binary64

/-- The number is neither an infinity nor a NaN. -/
def IsFinite (x : Binary64) : Prop := x.magnitude < FloatFormat.double.infinity

/-- The number that a finite pattern stands for. -/
def toRat (x : Binary64) : ℚ := FloatFormat.double.signedValue x.bits.toNat

variable {x x' : Binary64} {p p' : ℕ}

lemma toRat_eq (x : Binary64) :
    x.toRat = FloatFormat.signed x.negative (FloatFormat.double.value x.magnitude) := by
  simp only [toRat, FloatFormat.signedValue, FloatFormat.signed, negative, decide_eq_true_eq,
    magnitude]

/-- The greatest single-precision number and what would be the next one have this in between. -/
lemma midpoint_greatest :
    FloatFormat.single.midpoint (FloatFormat.single.infinity - 1) = 2 ^ 128 - 2 ^ 103 := by
  have hpattern : FloatFormat.single.infinity - 1 =
      253 * 2 ^ FloatFormat.single.fractionBits + 16777215 := by decide
  have hexponent : FloatFormat.single.leastExponent + (253 : ℕ) = 104 := by decide
  rw [hpattern, FloatFormat.midpoint_of_significand _ (by decide) (by decide), hexponent]
  norm_num

/-- The single-precision pattern that a finite number is narrowed to, below the sign. -/
def nearestSingle (x : Binary64) : ℕ :=
  FloatFormat.single.ofScaled (FloatFormat.double.significand x.magnitude)
    (FloatFormat.double.exponent x.magnitude)

lemma rounded_nearestSingle (x : Binary64) :
    FloatFormat.single.Rounded (FloatFormat.double.value x.magnitude) x.nearestSingle :=
  FloatFormat.single.rounded_ofScaled (by decide) _ _

/-- A finite number is narrowed if the nearest pattern is below infinity, and keeps its sign. -/
lemma narrow?_eq_ite (hx : x.IsFinite) :
    x.narrow? = if x.nearestSingle < FloatFormat.single.infinity then
      some (FloatFormat.single.withSign x.negative x.nearestSingle) else none := by
  rw [IsFinite] at hx
  rw [narrow?, if_pos hx]
  rfl

lemma narrow?_eq_some_iff (hx : x.IsFinite) :
    x.narrow? = some p ↔ x.nearestSingle < FloatFormat.single.infinity ∧
      p = FloatFormat.single.withSign x.negative x.nearestSingle := by
  rw [narrow?_eq_ite hx]
  split <;> simp_all [eq_comm]

lemma nearestSingle_lt_iff (x : Binary64) :
    x.nearestSingle < FloatFormat.single.infinity ↔ |x.toRat| < 2 ^ 128 - 2 ^ 103 := by
  have hodd : Odd (FloatFormat.single.infinity - 1) := by decide
  rw [toRat_eq, FloatFormat.abs_signed (FloatFormat.value_nonneg _ _), ← midpoint_greatest,
    ← x.rounded_nearestSingle.le_iff_of_odd hodd]
  exact Nat.lt_iff_le_pred (by decide)

theorem roundsTo_of_narrow? (hx : x.IsFinite) (hp : x.narrow? = some p) :
    FloatFormat.single.RoundsTo x.toRat p := by
  obtain ⟨hlt, rfl⟩ := (narrow?_eq_some_iff hx).mp hp
  rw [toRat_eq]
  exact FloatFormat.roundsTo_of_rounded (by decide) (FloatFormat.value_nonneg _ _)
    x.rounded_nearestSingle hlt x.negative

lemma signWeight_le_iff_of_narrow? (hx : x.IsFinite) (hp : x.narrow? = some p) :
    FloatFormat.single.signWeight ≤ p ↔ x.negative = true := by
  obtain ⟨hlt, rfl⟩ := (narrow?_eq_some_iff hx).mp hp
  exact FloatFormat.signWeight_le_withSign_iff
    (hlt.trans_le FloatFormat.single.infinity_le_signWeight)

/-- Narrowing keeps the order of numbers. -/
theorem signedValue_mono (hx : x.IsFinite) (hx' : x'.IsFinite) (hle : x.toRat ≤ x'.toRat)
    (hp : x.narrow? = some p) (hp' : x'.narrow? = some p') :
    FloatFormat.single.signedValue p ≤ FloatFormat.single.signedValue p' := by
  obtain ⟨hlt, rfl⟩ := (narrow?_eq_some_iff hx).mp hp
  obtain ⟨hlt', rfl⟩ := (narrow?_eq_some_iff hx').mp hp'
  have hweight := FloatFormat.single.infinity_le_signWeight
  rw [toRat_eq, toRat_eq] at hle
  rw [FloatFormat.signedValue_withSign (hlt.trans_le hweight),
    FloatFormat.signedValue_withSign (hlt'.trans_le hweight)]
  exact FloatFormat.signed_mono (FloatFormat.value_nonneg _ _) (FloatFormat.value_nonneg _ _)
    x.rounded_nearestSingle x'.rounded_nearestSingle hle

/-- A finite single-precision pattern is widened to the same number, from which it is found
again. -/
theorem widen_of_isFinite (hp : FloatFormat.single.IsFinite p) :
    (widen p).IsFinite ∧ (widen p).toRat = FloatFormat.single.signedValue p ∧
      (widen p).negative = decide (FloatFormat.single.signWeight ≤ p) ∧
      (widen p).narrow? = some p := by
  obtain ⟨hlt, hfinite⟩ := hp
  obtain ⟨hmagnitude, hvalue⟩ := widen_exact hfinite
  rw [single_signWeight] at hlt hfinite hmagnitude hvalue
  have hwide := show widenMagnitude (p % 2 ^ 31) = _ from if_pos hfinite
  rw [← hwide] at hmagnitude hvalue
  have hbits : widenMagnitude (p % 2 ^ 31) < 2 ^ 63 := hmagnitude.trans (by decide)
  have hm : (widen p).magnitude = widenMagnitude (p % 2 ^ 31) := by
    rw [widen_eq, magnitude_ofParts _ hbits]
  have hn : (widen p).negative = decide (2 ^ 31 ≤ p) := by
    rw [widen_eq, negative_ofParts _ hbits]
  have hquiet : ¬FloatFormat.single.Signalling (p % 2 ^ 31) := fun hs =>
    absurd hfinite (not_lt.mpr hs.1.le)
  refine ⟨by rw [IsFinite, hm]; exact hmagnitude, ?_, hn, narrow?_widen (by omega) hquiet⟩
  rw [toRat_eq, hm, hn, hvalue, FloatFormat.signed, FloatFormat.signedValue, single_signWeight]
  by_cases hsign : 2 ^ 31 ≤ p <;> simp only [hsign, decide_true, decide_false, if_true, if_false,
    Bool.false_eq_true]

end Binary64

/-! ## Fields of four bytes -/

namespace Field

variable {x : Binary64} {p : ℕ} {order : ByteOrder}

lemma encode_float32_eq (x : Binary64) (order : ByteOrder) :
    encode .float32 (.real x) order =
      match x.narrow? with
      | some p => .ok (Word.encode order.endian 4 p)
      | none => .error (.unpackable (.real x) .float32 .beyondSingle) := by
  have hsize : Specifier.float32.size = 4 := rfl
  simp only [encode, show Specifier.float32.kind = .real from rfl, encodeReal, double?, hsize,
    if_true, encodeSingle]
  cases x.narrow? <;> rfl

lemma decode_float32_eq (holding : Holding) (hp : p < 2 ^ 32) (order : ByteOrder) :
    decode .float32 (.whole holding (Word.encode order.endian 4 p)) order =
      .ok (.real (Binary64.widen p)) := by
  have hsize : Specifier.float32.size = 4 := rfl
  have hback := Word.ofDigits_arrange_encode order.endian (show p < 256 ^ 4 from hp)
  simp only [decode, show Specifier.float32.kind = .real from rfl, Buffer.whole, Word.length_encode,
    hsize, if_true, decodeReal, hback]

/-- What is read back from the bytes of a finite double is the number it was narrowed to. -/
lemma exists_of_decode_float32 (hx : x.IsFinite) {raw : Bytes} {y : Binary64}
    (hraw : encode .float32 (.real x) order = .ok raw)
    (hy : decode .float32 (.ofBytes raw) order = .ok (.real y)) :
    ∃ p, x.narrow? = some p ∧ y.toRat = FloatFormat.single.signedValue p := by
  rw [encode_float32_eq] at hraw
  cases hp : x.narrow? with
  | none => rw [hp] at hraw; cases hraw
  | some p =>
    rw [hp] at hraw
    cases hraw
    have hfinite := (Binary64.roundsTo_of_narrow? hx hp).finite
    obtain rfl : Binary64.widen p = y := by
      have hback := (decode_float32_eq (.view true) hfinite.1 order).symm.trans hy
      exact Value.real.inj (Except.ok.inj hback)
    exact ⟨p, rfl, (Binary64.widen_of_isFinite hfinite).2.1⟩

/-- A finite double is refused just when it is as large as the midpoint behind the greatest
single-precision number, or larger. Otherwise its field holds the nearest single-precision number,
between two the one with the even significand, with the sign of the double. That number is read back
from the field, and is written as the same bytes again. Of two doubles the greater one never gives
back the smaller number. -/
theorem encode_float32 {x : Binary64} (hx : x.IsFinite) (order : ByteOrder) :
    (encode .float32 (.real x) order = .error (.unpackable (.real x) .float32 .beyondSingle) ↔
      2 ^ 128 - 2 ^ 103 ≤ |x.toRat|) ∧
    (|x.toRat| < 2 ^ 128 - 2 ^ 103 → ∃ p y, FloatFormat.single.RoundsTo x.toRat p ∧
      encode .float32 (.real x) order = .ok (Word.encode order.endian 4 p) ∧
      (∀ holding, decode .float32 (.whole holding (Word.encode order.endian 4 p)) order =
        .ok (.real y)) ∧
      y.IsFinite ∧ y.toRat = FloatFormat.single.signedValue p ∧ y.negative = x.negative ∧
      encode .float32 (.real y) order = .ok (Word.encode order.endian 4 p)) ∧
    ∀ x' raw raw' y y', x'.IsFinite → x.toRat ≤ x'.toRat →
      encode .float32 (.real x) order = .ok raw → encode .float32 (.real x') order = .ok raw' →
      decode .float32 (.ofBytes raw) order = .ok (.real y) →
      decode .float32 (.ofBytes raw') order = .ok (.real y') → y.toRat ≤ y'.toRat := by
  have hlimit : x.narrow? = none ↔ 2 ^ 128 - 2 ^ 103 ≤ |x.toRat| := by
    rw [← not_lt, ← x.nearestSingle_lt_iff, Binary64.narrow?_eq_ite hx]
    split <;> simp_all
  refine ⟨?_, fun hlt => ?_, fun x' raw raw' y y' hx' hle hraw hraw' hy hy' => ?_⟩
  · rw [← hlimit, encode_float32_eq]
    cases x.narrow? <;> simp
  · obtain ⟨p, hp⟩ := Option.ne_none_iff_exists'.mp (mt hlimit.mp (not_le.mpr hlt))
    have hrounds := Binary64.roundsTo_of_narrow? hx hp
    obtain ⟨hfinite, hvalue, hsign, hback⟩ := Binary64.widen_of_isFinite hrounds.finite
    refine ⟨p, Binary64.widen p, hrounds, by rw [encode_float32_eq, hp],
      fun holding => decode_float32_eq holding hrounds.finite.1 order, hfinite, hvalue, ?_,
      by rw [encode_float32_eq, hback]⟩
    rw [hsign]
    simp only [Binary64.signWeight_le_iff_of_narrow? hx hp, Bool.decide_eq_true]
  · obtain ⟨p, hp, hvalue⟩ := exists_of_decode_float32 hx hraw hy
    obtain ⟨p', hp', hvalue'⟩ := exists_of_decode_float32 hx' hraw' hy'
    rw [hvalue, hvalue']
    exact Binary64.signedValue_mono hx hx' hle hp hp'

/-- The number half way between one and the next single is rounded to the even significand, and the
one half way behind the greatest single is refused. -/
theorem encode_float32_half :
    encode .float32 (.real ⟨0x3FF0000010000000⟩) .bigEndian = .ok [0x3F, 0x80, 0, 0] ∧
      FloatFormat.single.RoundsTo (1 + 1 / 2 ^ 24) 0x3F800000 ∧
      encode .float32 (.real ⟨0x47EFFFFFF0000000⟩) .bigEndian =
        .error (.unpackable (.real ⟨0x47EFFFFFF0000000⟩) .float32 .beyondSingle) := by
  have hone : Binary64.toRat ⟨0x3FF0000010000000⟩ = 1 + 1 / 2 ^ 24 := by
    have hnegative : Binary64.negative ⟨0x3FF0000010000000⟩ = false := by decide
    have hsignificand : FloatFormat.double.significand
        (Binary64.magnitude ⟨0x3FF0000010000000⟩) = 2 ^ 52 + 2 ^ 28 := by decide
    have hexponent : FloatFormat.double.exponent
        (Binary64.magnitude ⟨0x3FF0000010000000⟩) = -52 := by decide
    rw [Binary64.toRat_eq, hnegative, FloatFormat.value, hsignificand, hexponent]
    norm_num [FloatFormat.signed]
  have hlarge : Binary64.toRat ⟨0x47EFFFFFF0000000⟩ = 2 ^ 128 - 2 ^ 103 := by
    have hnegative : Binary64.negative ⟨0x47EFFFFFF0000000⟩ = false := by decide
    have hsignificand : FloatFormat.double.significand
        (Binary64.magnitude ⟨0x47EFFFFFF0000000⟩) = 2 ^ 53 - 2 ^ 28 := by decide
    have hexponent : FloatFormat.double.exponent
        (Binary64.magnitude ⟨0x47EFFFFFF0000000⟩) = 75 := by decide
    rw [Binary64.toRat_eq, hnegative, FloatFormat.value, hsignificand, hexponent]
    norm_num [FloatFormat.signed]
  have hraw : encode .float32 (.real ⟨0x3FF0000010000000⟩) .bigEndian =
      .ok [0x3F, 0x80, 0, 0] := by
    have hnarrow : Binary64.narrow? ⟨0x3FF0000010000000⟩ = some 0x3F800000 := by decide +kernel
    rw [encode_float32_eq, hnarrow]
    rfl
  have hfinite : Binary64.IsFinite ⟨0x3FF0000010000000⟩ := by unfold Binary64.IsFinite; decide
  have hfinite' : Binary64.IsFinite ⟨0x47EFFFFFF0000000⟩ := by unfold Binary64.IsFinite; decide
  obtain ⟨p, y, hrounds, hencode, -⟩ :=
    (encode_float32 hfinite .bigEndian).2.1 (by rw [hone]; norm_num)
  obtain rfl : p = 0x3F800000 := by
    have hbytes : Word.encode .big 4 p = [0x3F, 0x80, 0, 0] :=
      Except.ok.inj (hencode.symm.trans hraw)
    have hback := Word.ofDigits_arrange_encode .big (show p < 256 ^ 4 from hrounds.finite.1)
    rw [hbytes] at hback
    exact hback.symm.trans (by decide)
  refine ⟨hraw, hone ▸ hrounds, (encode_float32 hfinite' .bigEndian).1.mpr ?_⟩
  rw [hlarge]
  exact le_abs_self _

end Field

end BinaryLayout
