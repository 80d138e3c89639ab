import BinaryLayout.Number.Binary
import Mathlib.Algebra.Order.Field.Power
import Mathlib.Data.Nat.Log
import Mathlib.Data.Rat.Defs
import Mathlib.Tactic.FieldSimp
import Mathlib.Tactic.Linarith
import Mathlib.Tactic.NormNum
import Mathlib.Tactic.Ring

/-!
# Real numbers and their patterns

A finite pattern stands for a rational number, and a number that some pattern stands for is
rounded to that pattern. So a single-precision number passes through double precision unchanged,
and so does a NaN, unless it is a signalling one.
-/
namespace BinaryLayout

namespace FloatFormat

/-- The number that a pattern below infinity stands for. -/
def value (f : FloatFormat) (pattern : ℕ) : ℚ :=
  f.significand pattern * 2 ^ f.exponent pattern

/-- A NaN whose fraction does not start with the quiet bit. -/
def Signalling (f : FloatFormat) (pattern : ℕ) : Prop :=
  f.infinity < pattern ∧ pattern < f.infinity + f.quietBit

/-! ## Significand and exponent -/

lemma significand_lt (f : FloatFormat) (m : ℕ) : f.significand m < 2 ^ (f.fractionBits + 1) := by
  have h := Nat.mod_lt m (Nat.two_pow_pos f.fractionBits)
  rw [significand, pow_succ]
  split <;> omega

lemma leastExponent_le (f : FloatFormat) (m : ℕ) : f.leastExponent ≤ f.exponent m := by
  rw [exponent]
  omega

/-- Above the least exponent the first bit of a significand is set. -/
lemma two_pow_le_significand (f : FloatFormat) {m : ℕ} (h : f.leastExponent < f.exponent m) :
    2 ^ f.fractionBits ≤ f.significand m := by
  have hm : ¬m < 2 ^ f.fractionBits := fun hm => by
    rw [exponent, Nat.div_eq_of_lt hm] at h
    omega
  rw [significand, if_neg hm]
  omega

/-- A pattern counts the significands from the least exponent on. -/
lemma pattern_eq (f : FloatFormat) (m : ℕ) :
    (f.exponent m - f.leastExponent).toNat * 2 ^ f.fractionBits + f.significand m = m := by
  have hd := Nat.div_add_mod m (2 ^ f.fractionBits)
  have he : (f.exponent m - f.leastExponent).toNat = m / 2 ^ f.fractionBits - 1 := by
    rw [exponent]
    omega
  rw [he, significand]
  split
  · next h => rw [Nat.div_eq_of_lt h]; omega
  · next h =>
    have hq : 1 ≤ m / 2 ^ f.fractionBits :=
      (Nat.one_le_div_iff (Nat.two_pow_pos _)).mpr (by omega)
    obtain ⟨q, hq⟩ := Nat.exists_eq_add_of_le hq
    rw [hq] at hd ⊢
    rw [Nat.mul_add, Nat.mul_one] at hd
    rw [Nat.add_sub_cancel_left, Nat.mul_comm q]
    omega

/-- A significand that belongs to its exponent is read off the pattern that counts it. -/
lemma significand_exponent (f : FloatFormat) {k s : ℕ} (hs : s < 2 ^ (f.fractionBits + 1))
    (hk : k = 0 ∨ 2 ^ f.fractionBits ≤ s) :
    f.significand (k * 2 ^ f.fractionBits + s) = s ∧
      f.exponent (k * 2 ^ f.fractionBits + s) = f.leastExponent + k := by
  have hp := Nat.two_pow_pos f.fractionBits
  rw [pow_succ] at hs
  by_cases hn : s < 2 ^ f.fractionBits
  · obtain rfl : k = 0 := by omega
    rw [Nat.zero_mul, Nat.zero_add, significand, if_pos hn, exponent, Nat.div_eq_of_lt hn]
    exact ⟨rfl, by omega⟩
  · obtain ⟨r, rfl⟩ : ∃ r, s = 2 ^ f.fractionBits + r := ⟨s - 2 ^ f.fractionBits, by omega⟩
    have hr : r < 2 ^ f.fractionBits := by omega
    have he : k * 2 ^ f.fractionBits + (2 ^ f.fractionBits + r) =
        (k + 1) * 2 ^ f.fractionBits + r := by ring
    have hge : 2 ^ f.fractionBits ≤ (k + 1) * 2 ^ f.fractionBits :=
      Nat.le_mul_of_pos_left _ (by omega)
    have hdiv : ((k + 1) * 2 ^ f.fractionBits + r) / 2 ^ f.fractionBits = k + 1 := by
      rw [Nat.add_comm, Nat.add_mul_div_right _ _ hp, Nat.div_eq_of_lt hr, Nat.zero_add]
    have hmod : ((k + 1) * 2 ^ f.fractionBits + r) % 2 ^ f.fractionBits = r := by
      rw [Nat.add_comm, Nat.add_mul_mod_self_right, Nat.mod_eq_of_lt hr]
    rw [he, significand, if_neg (by omega), exponent, hdiv, hmod]
    exact ⟨by omega, by omega⟩

/-! ## Exact scaling -/

lemma divideEven_mul (s : ℕ) {d : ℕ} (hd : 0 < d) : divideEven (s * d) d = s := by
  rw [divideEven, Nat.mul_mod_left, Nat.mul_div_cancel _ hd, if_pos (by omega)]

lemma scaleEven_of_eq {n s : ℕ} {k : ℤ} (h : (n : ℚ) * 2 ^ k = s) : scaleEven n k = s := by
  rw [scaleEven]
  split
  · next hk =>
    obtain ⟨j, rfl⟩ := Int.eq_ofNat_of_zero_le hk
    rw [Int.toNat_natCast]
    exact_mod_cast h
  · next hk =>
    obtain ⟨j, rfl⟩ : ∃ j : ℕ, k = -j := ⟨(-k).toNat, by omega⟩
    have hn : n = s * 2 ^ j := by
      have hq : (n : ℚ) = s * 2 ^ j := by
        rw [← h, zpow_neg, zpow_natCast]
        field_simp
      exact_mod_cast hq
    rw [neg_neg, Int.toNat_natCast, hn, divideEven_mul _ (Nat.two_pow_pos j)]

lemma two_pow_mul_le {w s : ℕ} (h : 2 ^ w ≤ s) (e : ℤ) : (2 : ℚ) ^ (w + e) ≤ s * 2 ^ e := by
  have h : ((2 ^ w : ℕ) : ℚ) ≤ s := Nat.cast_le.mpr h
  rw [zpow_add₀ two_ne_zero, zpow_natCast]
  push_cast at h
  exact mul_le_mul_of_nonneg_right h (by positivity)

lemma lt_two_zpow {n w : ℕ} (h : n < 2 ^ w) (e : ℤ) : (n : ℚ) * 2 ^ e < 2 ^ (w + e) := by
  have h : (n : ℚ) < ((2 ^ w : ℕ) : ℚ) := Nat.cast_lt.mpr h
  rw [zpow_add₀ two_ne_zero, zpow_natCast]
  push_cast at h
  exact mul_lt_mul_of_pos_right h (by positivity)

/-- The binary exponent of a number bounds the exponent of any pattern that stands for it. -/
lemma unit_eq_exponent (f : FloatFormat) {m n : ℕ} {e : ℤ} (hn : n ≠ 0)
    (h : (n : ℚ) * 2 ^ e = f.value m) :
    max ((n.log2 : ℤ) + e - f.fractionBits) f.leastExponent = f.exponent m := by
  have hle := f.leastExponent_le m
  have hupper : (n.log2 : ℤ) + e < (f.fractionBits + 1 : ℕ) + f.exponent m := by
    have h1 := two_pow_mul_le (Nat.log2_self_le hn) e
    have h2 := lt_two_zpow (f.significand_lt m) (f.exponent m)
    rw [h] at h1
    exact (zpow_lt_zpow_iff_right₀ one_lt_two).mp (h1.trans_lt h2)
  have hlower : f.leastExponent < f.exponent m →
      (f.fractionBits : ℤ) + f.exponent m < (n.log2 + 1 : ℕ) + e := by
    intro hE
    have h1 := two_pow_mul_le (f.two_pow_le_significand hE) (f.exponent m)
    have h2 := lt_two_zpow (Nat.lt_log2_self (n := n)) e
    rw [h] at h2
    exact (zpow_lt_zpow_iff_right₀ one_lt_two).mp (h1.trans_lt h2)
  by_cases hE : f.leastExponent < f.exponent m
  · have := hlower hE
    omega
  · omega

/-- A number that some pattern stands for is rounded to that pattern. -/
theorem ofScaled_of_eq_value (f : FloatFormat) {m n : ℕ} {e : ℤ}
    (h : (n : ℚ) * 2 ^ e = f.value m) : f.ofScaled n e = m := by
  have hpat := f.pattern_eq m
  by_cases hn : n = 0
  · have hs : f.significand m = 0 := by simpa [hn, value, zpow_ne_zero] using h.symm
    have hE : ¬f.leastExponent < f.exponent m := fun hE => by
      have := f.two_pow_le_significand hE
      have := Nat.two_pow_pos f.fractionBits
      omega
    have hzero : (f.exponent m - f.leastExponent).toNat = 0 := by omega
    rw [hs, hzero] at hpat
    rw [ofScaled, if_pos hn, ← hpat]
    omega
  · have hscale : (n : ℚ) * 2 ^ (e - f.exponent m) = f.significand m := by
      rw [zpow_sub₀ two_ne_zero, ← mul_div_assoc, h, value, mul_div_assoc,
        div_self (zpow_ne_zero _ two_ne_zero), mul_one]
    rw [ofScaled, if_neg hn]
    simp only [f.unit_eq_exponent hn h, scaleEven_of_eq hscale]
    exact hpat

/-- The pattern of a number that needs no more bits than a significand has, and how far it is
counted at most. -/
lemma ofScaled_exact (f : FloatFormat) {n : ℕ} {e : ℤ} (hn : n ≠ 0)
    (hlog : n.log2 ≤ f.fractionBits) (he : f.leastExponent ≤ e) :
    f.value (f.ofScaled n e) = n * 2 ^ e ∧
      f.ofScaled n e < ((e - f.leastExponent).toNat + 2) * 2 ^ f.fractionBits := by
  obtain ⟨u, hu⟩ : ∃ u, u = max ((n.log2 : ℤ) + e - f.fractionBits) f.leastExponent := ⟨_, rfl⟩
  obtain ⟨k, hk⟩ : ∃ k : ℕ, u = f.leastExponent + k := ⟨(u - f.leastExponent).toNat, by omega⟩
  obtain ⟨j, hj⟩ : ∃ j : ℕ, e = u + j := ⟨(e - u).toNat, by omega⟩
  have hlt : n * 2 ^ j < 2 ^ (f.fractionBits + 1) := by
    calc n * 2 ^ j < 2 ^ (n.log2 + 1) * 2 ^ j :=
          Nat.mul_lt_mul_of_pos_right Nat.lt_log2_self (Nat.two_pow_pos j)
      _ = 2 ^ (n.log2 + 1 + j) := (pow_add _ _ _).symm
      _ ≤ 2 ^ (f.fractionBits + 1) := Nat.pow_le_pow_right (by omega) (by omega)
  have hge : k = 0 ∨ 2 ^ f.fractionBits ≤ n * 2 ^ j := by
    by_cases h0 : k = 0
    · exact .inl h0
    · right
      calc 2 ^ f.fractionBits = 2 ^ n.log2 * 2 ^ j := by rw [← pow_add]; congr 1; omega
        _ ≤ n * 2 ^ j := Nat.mul_le_mul_right _ (Nat.log2_self_le hn)
  have hp : f.ofScaled n e = k * 2 ^ f.fractionBits + n * 2 ^ j := by
    have h1 : (u - f.leastExponent).toNat = k := by omega
    have h2 : e - u = j := by omega
    rw [ofScaled, if_neg hn, ← hu]
    simp only [h1, h2, scaleEven, Int.natCast_nonneg, if_true, Int.toNat_natCast]
  obtain ⟨hs, hE⟩ := f.significand_exponent hlt hge
  rw [hp]
  refine ⟨?_, ?_⟩
  · rw [value, hs, hE, ← hk, hj, zpow_add₀ two_ne_zero, zpow_natCast]
    push_cast
    ring
  · calc k * 2 ^ f.fractionBits + n * 2 ^ j < (k + 2) * 2 ^ f.fractionBits := by
          rw [pow_succ] at hlt
          rw [Nat.add_mul]
          omega
      _ ≤ _ := Nat.mul_le_mul_right _ (by omega)

end FloatFormat

namespace Binary64

/-- A single-precision number has exactly the value of this one; of a NaN it keeps the payload. -/
def IsSingle (x : Binary64) : Prop :=
  (x.magnitude < FloatFormat.double.infinity ∧ ∃ q < FloatFormat.single.infinity,
    FloatFormat.single.value q = FloatFormat.double.value x.magnitude) ∨
  x.magnitude = FloatFormat.double.infinity ∨
  (FloatFormat.double.infinity < x.magnitude ∧ 2 ^ 29 ∣ x.magnitude)

/-- A signalling NaN of double precision. -/
def Signalling (x : Binary64) : Prop := FloatFormat.double.Signalling x.magnitude

/-! ## Signs -/

lemma single_signWeight : FloatFormat.single.signWeight = 2 ^ 31 := rfl

lemma single_infinity : FloatFormat.single.infinity = 0x7F800000 := rfl

lemma double_signWeight : FloatFormat.double.signWeight = 2 ^ 63 := rfl

lemma double_infinity : FloatFormat.double.infinity = 0x7FF0000000000000 := rfl

lemma toNat_ofParts (negative : Bool) {m : ℕ} (h : m < 2 ^ 63) :
    (ofParts negative m).bits.toNat = (if negative then 2 ^ 63 else 0) + m := by
  rw [ofParts, UInt64.toNat_ofNat', double_signWeight]
  split <;> omega

lemma negative_ofParts (negative : Bool) {m : ℕ} (h : m < 2 ^ 63) :
    (ofParts negative m).negative = negative := by
  rw [Binary64.negative, toNat_ofParts negative h, double_signWeight]
  cases negative <;> simp
  omega

lemma magnitude_ofParts (negative : Bool) {m : ℕ} (h : m < 2 ^ 63) :
    (ofParts negative m).magnitude = m := by
  rw [magnitude, toNat_ofParts negative h, double_signWeight]
  cases negative <;> simp <;> omega

lemma magnitude_lt (x : Binary64) : x.magnitude < 2 ^ 63 := Nat.mod_lt _ (by decide)

@[simp] lemma ofParts_negative_magnitude (x : Binary64) : ofParts x.negative x.magnitude = x := by
  obtain ⟨bits⟩ := x
  have hx := bits.toNat_lt
  have h := toNat_ofParts (Binary64.mk bits).negative (Binary64.mk bits).magnitude_lt
  rw [ofParts] at h ⊢
  congr 1
  apply UInt64.toNat.inj
  rw [h, Binary64.negative, magnitude, double_signWeight]
  simp only [decide_eq_true_eq]
  split <;> omega

/-! ## Precisions -/

/-- Every single-precision number is a double-precision number. -/
lemma widen_exact {q : ℕ} (hq : q < FloatFormat.single.infinity) :
    FloatFormat.double.ofScaled (FloatFormat.single.significand q)
        (FloatFormat.single.exponent q) < FloatFormat.double.infinity ∧
      FloatFormat.double.value (FloatFormat.double.ofScaled (FloatFormat.single.significand q)
        (FloatFormat.single.exponent q)) = FloatFormat.single.value q := by
  by_cases hn : FloatFormat.single.significand q = 0
  · have h0 : FloatFormat.double.ofScaled 0 (FloatFormat.single.exponent q) = 0 := if_pos rfl
    rw [FloatFormat.value, FloatFormat.value, hn, h0]
    exact ⟨by decide, by simp [FloatFormat.significand]⟩
  · have hlt : FloatFormat.single.significand q < 2 ^ 24 := FloatFormat.single.significand_lt q
    have hlog : (FloatFormat.single.significand q).log2 < 24 := (Nat.log2_lt hn).mpr hlt
    have hleast : FloatFormat.single.leastExponent = -149 := by decide
    have hdleast : FloatFormat.double.leastExponent = -1074 := by decide
    have hle := FloatFormat.single.leastExponent_le q
    have hmost : FloatFormat.single.exponent q ≤ 104 := by
      have hd : q / 2 ^ 23 < 255 := Nat.div_lt_of_lt_mul (by rw [single_infinity] at hq; omega)
      have hfb : FloatFormat.single.fractionBits = 23 := rfl
      rw [FloatFormat.exponent, hleast, hfb]
      omega
    obtain ⟨hv, hb⟩ := FloatFormat.double.ofScaled_exact hn (show _ ≤ 52 by omega)
      (show FloatFormat.double.leastExponent ≤ FloatFormat.single.exponent q by omega)
    have hk : (FloatFormat.single.exponent q - FloatFormat.double.leastExponent).toNat + 2 ≤
        2047 := by omega
    exact ⟨hb.trans_le (Nat.mul_le_mul_right (2 ^ 52) hk), hv⟩

lemma or_two_pow {n i : ℕ} (h1 : 2 ^ i ≤ n) (h2 : n < 2 ^ (i + 1)) : n ||| 2 ^ i = n := by
  have hbit := Nat.testBit_of_two_pow_le_and_two_pow_add_one_gt h1 h2
  apply Nat.eq_of_testBit_eq
  intro j
  rw [Nat.testBit_or, Nat.testBit_two_pow]
  by_cases hj : i = j
  · subst hj
    simp [hbit]
  · simp [hj]

/-- The payload of a quiet NaN does not change when it is made quiet. -/
lemma quiet_single {g : ℕ} (h1 : 2 ^ 22 ≤ g) (h2 : g < 2 ^ 23) :
    quiet FloatFormat.single g = FloatFormat.single.infinity + g :=
  congrArg _ (or_two_pow h1 h2)

lemma quiet_double {g : ℕ} (h1 : 2 ^ 51 ≤ g) (h2 : g < 2 ^ 52) :
    quiet FloatFormat.double g = FloatFormat.double.infinity + g :=
  congrArg _ (or_two_pow h1 h2)

/-- What is below the sign of a widened single-precision pattern. -/
def widenMagnitude (q : ℕ) : ℕ :=
  if q < FloatFormat.single.infinity then
    FloatFormat.double.ofScaled (FloatFormat.single.significand q) (FloatFormat.single.exponent q)
  else if q = FloatFormat.single.infinity then FloatFormat.double.infinity
  else quiet FloatFormat.double ((q - FloatFormat.single.infinity) * 2 ^ 29)

/-- What is below the sign of a narrowed double-precision pattern. -/
def narrowMagnitude? (m : ℕ) : Option ℕ :=
  if m < FloatFormat.double.infinity then
    let q := FloatFormat.single.ofScaled (FloatFormat.double.significand m)
      (FloatFormat.double.exponent m)
    if q < FloatFormat.single.infinity then some q else none
  else if m = FloatFormat.double.infinity then some FloatFormat.single.infinity
  else some (quiet FloatFormat.single ((m - FloatFormat.double.infinity) / 2 ^ 29))

lemma widen_eq (p : ℕ) :
    widen p = ofParts (decide (2 ^ 31 ≤ p)) (widenMagnitude (p % 2 ^ 31)) := by
  rw [widen, widenMagnitude, single_signWeight]
  split_ifs <;> rfl

lemma narrow?_eq (x : Binary64) :
    x.narrow? = (narrowMagnitude? x.magnitude).map fun q =>
      (if x.negative then 2 ^ 31 else 0) + q := by
  rw [narrow?, narrowMagnitude?, single_signWeight]
  simp only
  split_ifs <;> rfl

/-- Only signalling NaNs are not found again below the sign. -/
lemma narrowMagnitude?_widenMagnitude {q : ℕ} (hq : q < 2 ^ 31)
    (hs : ¬FloatFormat.single.Signalling q) :
    widenMagnitude q < 2 ^ 63 ∧ narrowMagnitude? (widenMagnitude q) = some q := by
  have hbit : FloatFormat.single.quietBit = 2 ^ 22 := rfl
  rw [widenMagnitude]
  split_ifs with h1 h2
  · obtain ⟨hlt, hv⟩ := widen_exact h1
    generalize FloatFormat.double.ofScaled _ _ = m at *
    have hback : FloatFormat.single.ofScaled (FloatFormat.double.significand m)
        (FloatFormat.double.exponent m) = q := FloatFormat.ofScaled_of_eq_value _ hv
    refine ⟨by rw [double_infinity] at hlt; omega, ?_⟩
    simp only [narrowMagnitude?, hlt, if_true, hback, h1]
  · refine ⟨by decide, ?_⟩
    simp only [narrowMagnitude?, lt_irrefl, if_false, if_true, h2]
  · rw [FloatFormat.Signalling, hbit, single_infinity] at hs
    rw [single_infinity] at h1 h2 ⊢
    obtain ⟨g, rfl⟩ : ∃ g, q = 0x7F800000 + g := ⟨q - 0x7F800000, by omega⟩
    have hg : 2 ^ 22 ≤ g := by omega
    have hg23 : g < 2 ^ 23 := by omega
    have hlow : 2 ^ 51 ≤ g * 2 ^ 29 := by omega
    have hhigh : g * 2 ^ 29 < 2 ^ 52 := by omega
    rw [Nat.add_sub_cancel_left, quiet_double hlow hhigh, narrowMagnitude?, double_infinity,
      if_neg (by omega), if_neg (by omega), Nat.add_sub_cancel_left,
      Nat.mul_div_cancel _ (Nat.two_pow_pos 29), quiet_single hg hg23, single_infinity]
    exact ⟨by omega, rfl⟩

/-- A single-precision pattern is found again from the number it stands for. -/
theorem narrow?_widen {p : ℕ} (hp : p < 2 ^ 32)
    (hs : ¬FloatFormat.single.Signalling (p % 2 ^ 31)) : (widen p).narrow? = some p := by
  obtain ⟨hlt, hn⟩ := narrowMagnitude?_widenMagnitude (Nat.mod_lt p (Nat.two_pow_pos 31)) hs
  rw [widen_eq, narrow?_eq, negative_ofParts _ hlt, magnitude_ofParts _ hlt, hn, Option.map_some]
  congr 1
  simp only [decide_eq_true_eq]
  split <;> omega

/-- Below its sign, a number that is a single is found again from a single-precision pattern. -/
lemma exists_widenMagnitude_eq {x : Binary64} (hs : x.IsSingle) (hq : ¬x.Signalling) :
    ∃ q < 2 ^ 31, narrowMagnitude? x.magnitude = some q ∧ widenMagnitude q = x.magnitude := by
  have hbit : FloatFormat.double.quietBit = 2 ^ 51 := rfl
  obtain ⟨hlt, q, hqs, hv⟩ | hinf | ⟨hlt, hdvd⟩ := hs
  · have hback : FloatFormat.single.ofScaled (FloatFormat.double.significand x.magnitude)
        (FloatFormat.double.exponent x.magnitude) = q :=
      FloatFormat.ofScaled_of_eq_value _ hv.symm
    refine ⟨q, by rw [single_infinity] at hqs; omega, ?_, ?_⟩
    · simp only [narrowMagnitude?, hlt, if_true, hback, hqs]
    · rw [widenMagnitude, if_pos hqs]
      exact FloatFormat.ofScaled_of_eq_value _ hv
  · refine ⟨FloatFormat.single.infinity, by decide, ?_, ?_⟩
    · simp only [narrowMagnitude?, hinf, lt_irrefl, if_false, if_true]
    · simp only [widenMagnitude, lt_irrefl, if_false, if_true, hinf]
  · have hm := x.magnitude_lt
    rw [Signalling, FloatFormat.Signalling, hbit, double_infinity] at hq
    rw [double_infinity] at hlt
    obtain ⟨g, hg⟩ : ∃ g, x.magnitude = 0x7FF0000000000000 + g * 2 ^ 29 :=
      ⟨(x.magnitude - 0x7FF0000000000000) / 2 ^ 29, by omega⟩
    rw [hg] at hm hq hlt ⊢
    have hlow : 2 ^ 51 ≤ g * 2 ^ 29 := by omega
    have hhigh : g * 2 ^ 29 < 2 ^ 52 := by omega
    refine ⟨0x7F800000 + g, by omega, ?_, ?_⟩
    · rw [narrowMagnitude?, double_infinity, if_neg (by omega), if_neg (by omega),
        Nat.add_sub_cancel_left, Nat.mul_div_cancel _ (Nat.two_pow_pos 29),
        quiet_single (g := g) (by omega) (by omega), single_infinity]
    · rw [widenMagnitude, single_infinity, if_neg (by omega), if_neg (by omega),
        Nat.add_sub_cancel_left, quiet_double hlow hhigh, double_infinity]

theorem exists_widen_eq {x : Binary64} (hs : x.IsSingle) (hq : ¬x.Signalling) :
    ∃ p < 2 ^ 32, x.narrow? = some p ∧ widen p = x := by
  obtain ⟨q, hq31, hn, hw⟩ := exists_widenMagnitude_eq hs hq
  obtain ⟨p, hp⟩ : ∃ p, p = (if x.negative then 2 ^ 31 else 0) + q := ⟨_, rfl⟩
  have hmod : p % 2 ^ 31 = q := by split at hp <;> omega
  have hsign : decide (2 ^ 31 ≤ p) = x.negative := by
    cases hx : x.negative <;> simp [hx] at hp ⊢ <;> omega
  refine ⟨p, by split at hp <;> omega, by rw [narrow?_eq, hn, hp, Option.map_some], ?_⟩
  rw [widen_eq, hmod, hw, hsign, ofParts_negative_magnitude]

end Binary64

end BinaryLayout
