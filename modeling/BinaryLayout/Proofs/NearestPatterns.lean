import BinaryLayout.Proofs.RealCodec
import Mathlib.Algebra.Order.Field.Basic
import Mathlib.Algebra.Order.Group.Nat
import Mathlib.Order.Monotone.Basic

/-!
# Nearest patterns

Below infinity the patterns of a format count its numbers upwards, and the distance from one number
to the next is the power of two that its significand is scaled by. A number is rounded to the
pattern whose midpoints with both neighbours it is between, and on a midpoint to the even one of two
patterns. Everything else about rounding follows from the midpoints: nothing is nearer, the order is
kept, and a bound on the pattern is a bound on the number.
-/
namespace BinaryLayout.FloatFormat

/-! ## Patterns in order -/

variable (f : FloatFormat)

/-- The number of a significand that is counted from an exponent on. The one that is too large for
the exponent is the first of the next. -/
lemma value_of_significand {k s : ℕ} (hs : s ≤ 2 ^ (f.fractionBits + 1))
    (hk : k = 0 ∨ 2 ^ f.fractionBits ≤ s) :
    f.value (k * 2 ^ f.fractionBits + s) = s * 2 ^ (f.leastExponent + k) := by
  rcases hs.lt_or_eq with hs | rfl
  · obtain ⟨hsignificand, hexponent⟩ := f.significand_exponent hs hk
    rw [value, hsignificand, hexponent]
  · have hnext : k * 2 ^ f.fractionBits + 2 ^ (f.fractionBits + 1) =
        (k + 1) * 2 ^ f.fractionBits + 2 ^ f.fractionBits := by ring
    have hlt : 2 ^ f.fractionBits < 2 ^ (f.fractionBits + 1) :=
      Nat.pow_lt_pow_right (by decide) (Nat.lt_succ_self _)
    obtain ⟨hsignificand, hexponent⟩ := f.significand_exponent hlt (k := k + 1) (.inr le_rfl)
    rw [hnext, value, hsignificand, hexponent, Nat.cast_succ, ← add_assoc,
      zpow_add_one₀ two_ne_zero]
    push_cast
    ring

/-- The next number is one unit of the last place away. -/
theorem value_succ (m : ℕ) : f.value (m + 1) = f.value m + 2 ^ f.exponent m := by
  have hpattern := f.pattern_eq m
  have hle := f.leastExponent_le m
  have hlt := f.significand_lt m
  obtain ⟨k, hk⟩ : ∃ k : ℕ, f.exponent m = f.leastExponent + k :=
    ⟨(f.exponent m - f.leastExponent).toNat, by omega⟩
  have hnormal : k = 0 ∨ 2 ^ f.fractionBits ≤ f.significand m + 1 := by
    rcases Nat.eq_zero_or_pos k with h0 | hpos
    · exact .inl h0
    · exact .inr ((f.two_pow_le_significand (by omega)).trans (Nat.le_succ _))
  have hcount : (f.exponent m - f.leastExponent).toNat = k := by omega
  rw [hcount] at hpattern
  have hsucc := f.value_of_significand (s := f.significand m + 1) hlt hnormal
  rw [← add_assoc, hpattern] at hsucc
  rw [hsucc, value, hk]
  push_cast
  ring

theorem value_strictMono : StrictMono f.value := by
  refine strictMono_nat_of_lt_succ fun m => ?_
  rw [value_succ]
  exact lt_add_of_pos_right _ (by positivity)

lemma value_nonneg (m : ℕ) : 0 ≤ f.value m := by
  unfold value
  positivity

@[simp] lemma value_zero : f.value 0 = 0 := by
  have h := f.value_of_significand (k := 0) (s := 0) (Nat.zero_le _) (.inl rfl)
  simpa using h

/-- The number half way from a pattern to the next one. -/
def midpoint (m : ℕ) : ℚ := (f.value m + f.value (m + 1)) / 2

lemma midpoint_strictMono : StrictMono f.midpoint := by
  refine strictMono_nat_of_lt_succ fun m => ?_
  have h := f.value_strictMono (Nat.lt_succ_self m)
  have h' := f.value_strictMono (Nat.lt_succ_self (m + 1))
  unfold midpoint
  linarith

lemma value_lt_midpoint (m : ℕ) : f.value m < f.midpoint m := by
  have h := f.value_strictMono (Nat.lt_succ_self m)
  unfold midpoint
  linarith

lemma midpoint_lt_value (m : ℕ) : f.midpoint m < f.value (m + 1) := by
  have h := f.value_strictMono (Nat.lt_succ_self m)
  unfold midpoint
  linarith

/-- Between two significands of one exponent the midpoint has one more place. -/
lemma midpoint_of_significand {k s : ℕ} (hs : s < 2 ^ (f.fractionBits + 1))
    (hk : k = 0 ∨ 2 ^ f.fractionBits ≤ s) :
    f.midpoint (k * 2 ^ f.fractionBits + s) = (s + 1 / 2) * 2 ^ (f.leastExponent + k) := by
  have hnext := f.value_of_significand (s := s + 1) hs (hk.imp_right Nat.le_succ_of_le)
  rw [midpoint, add_assoc, f.value_of_significand hs.le hk, hnext]
  push_cast
  ring

/-! ## Numbers and the patterns they are rounded to -/

/-- The number is between the midpoints on both sides of the pattern, and if it is one of them the
pattern is even. -/
structure Rounded (r : ℚ) (m : ℕ) : Prop where
  upper : r ≤ f.midpoint m
  lower : ∀ l < m, f.midpoint l ≤ r
  even : r = f.midpoint m ∨ (∃ l, m = l + 1 ∧ r = f.midpoint l) → Even m

namespace Rounded

variable {f} {r r' : ℚ} {m m' : ℕ}

theorem mono (h : f.Rounded r m) (h' : f.Rounded r' m') (hle : r ≤ r') : m ≤ m' := by
  by_contra hlt
  have hlt : m' < m := Nat.lt_of_not_le hlt
  -- Both numbers are the midpoint behind the smaller pattern, and the other one is the next.
  have hr : r' = f.midpoint m' := le_antisymm h'.upper ((h.lower m' hlt).trans hle)
  have hr' : r = f.midpoint m' := le_antisymm (hle.trans h'.upper) (h.lower m' hlt)
  obtain ⟨l, rfl⟩ : ∃ l, m = l + 1 := ⟨m - 1, by omega⟩
  have hl : l ≤ m' := f.midpoint_strictMono.le_iff_le.mp (hr' ▸ h.lower l (Nat.lt_succ_self l))
  obtain rfl : l = m' := by omega
  have heven := h'.even (.inl hr)
  have heven' := h.even (.inr ⟨l, rfl, hr'⟩)
  exact absurd heven (Nat.even_add_one.mp heven')

lemma eq_zero (h : f.Rounded 0 m) : m = 0 := by
  by_contra hm
  have hlower := h.lower 0 (Nat.pos_of_ne_zero hm)
  have hbehind := f.value_lt_midpoint 0
  rw [value_zero] at hbehind
  linarith

/-- A number is rounded beyond an odd pattern from the midpoint behind it on. -/
theorem le_iff_of_odd (h : f.Rounded r m) {p : ℕ} (hp : Odd p) : m ≤ p ↔ r < f.midpoint p := by
  constructor
  · intro hle
    have hupper := h.upper.trans (f.midpoint_strictMono.monotone hle)
    refine lt_of_le_of_ne hupper fun hr => ?_
    obtain rfl : m = p := f.midpoint_strictMono.injective
      (le_antisymm (f.midpoint_strictMono.monotone hle) (hr ▸ h.upper))
    exact Nat.not_even_iff_odd.mpr hp (h.even (.inl hr))
  · intro hlt
    by_contra hle
    exact absurd (h.lower p (Nat.lt_of_not_le hle)) (not_le.mpr hlt)

/-- No pattern is nearer to the number, and if another one is as near the pattern is even. -/
theorem nearest (h : f.Rounded r m) {p : ℕ} (hp : p ≠ m) :
    |f.value m - r| ≤ |f.value p - r| ∧ (|f.value p - r| = |f.value m - r| → Even m) := by
  rcases Nat.lt_or_gt_of_ne hp with hlt | hlt
  · obtain ⟨l, rfl⟩ : ∃ l, m = l + 1 := ⟨m - 1, by omega⟩
    have hstep := f.value_strictMono (Nat.lt_succ_self l)
    have hbelow : f.value p ≤ f.value l := f.value_strictMono.monotone (by omega)
    have hlower := h.lower l (Nat.lt_succ_self l)
    have hmid : f.midpoint l = (f.value l + f.value (l + 1)) / 2 := rfl
    have hdistance : |f.value p - r| = r - f.value p := by
      rw [abs_sub_comm]
      exact abs_of_nonneg (by linarith)
    rw [hdistance]
    refine ⟨abs_le.mpr ⟨by linarith, by linarith⟩, fun htie => h.even (.inr ⟨l, rfl, ?_⟩)⟩
    rcases abs_cases (f.value (l + 1) - r) with ⟨habs, -⟩ | ⟨habs, -⟩ <;> linarith
  · have hstep := f.value_strictMono (Nat.lt_succ_self m)
    have habove : f.value (m + 1) ≤ f.value p := f.value_strictMono.monotone (by omega)
    have hupper := h.upper
    have hmid : f.midpoint m = (f.value m + f.value (m + 1)) / 2 := rfl
    have hdistance : |f.value p - r| = f.value p - r := abs_of_nonneg (by linarith)
    rw [hdistance]
    refine ⟨abs_le.mpr ⟨by linarith, by linarith⟩, fun htie => h.even (.inl ?_)⟩
    rcases abs_cases (f.value m - r) with ⟨habs, -⟩ | ⟨habs, -⟩ <;> linarith

end Rounded

/-! ## Rounding -/

/-- A natural number within a half of the given one, and even if it is half away. -/
structure HalfEven (t : ℚ) (s : ℕ) : Prop where
  upper : t ≤ s + 1 / 2
  lower : s ≤ t + 1 / 2
  even : t = s + 1 / 2 ∨ s = t + 1 / 2 → Even s

lemma halfEven_natCast (n : ℕ) : HalfEven n n :=
  ⟨by linarith, by linarith, fun h => by rcases h with h | h <;> linarith⟩

lemma halfEven_divideEven (n : ℕ) {d : ℕ} (hd : 0 < d) :
    HalfEven ((n : ℚ) / d) (divideEven n d) := by
  have hpos : (0 : ℚ) < d := by exact_mod_cast hd
  have hdivision : (n : ℚ) = d * (n / d : ℕ) + (n % d : ℕ) := by
    exact_mod_cast (Nat.div_add_mod n d).symm
  have hquotient : (n : ℚ) / d = (n / d : ℕ) + (n % d : ℕ) / d := by
    rw [hdivision, add_div, mul_div_cancel_left₀ _ hpos.ne']
  have hrest : (0 : ℚ) ≤ (n % d : ℕ) / d := by positivity
  have hrest' : ((n % d : ℕ) : ℚ) / d < 1 := by
    rw [div_lt_one hpos]
    exact_mod_cast Nat.mod_lt n hd
  rw [hquotient]
  unfold divideEven
  split_ifs with hdown hup
  · have hhalf : ((n % d : ℕ) : ℚ) / d < 1 / 2 := by
      rw [div_lt_iff₀ hpos]
      have : (2 : ℚ) * (n % d : ℕ) < d := by exact_mod_cast hdown
      linarith
    exact ⟨by linarith, by linarith, fun h => by rcases h with h | h <;> linarith⟩
  · have hhalf : 1 / 2 < ((n % d : ℕ) : ℚ) / d := by
      rw [lt_div_iff₀ hpos]
      have : (d : ℚ) < 2 * (n % d : ℕ) := by exact_mod_cast hup
      linarith
    have hnext : ((n / d + 1 : ℕ) : ℚ) = (n / d : ℕ) + 1 := Nat.cast_succ _
    exact ⟨by linarith, by linarith, fun h => by rcases h with h | h <;> linarith⟩
  · have hhalf : ((n % d : ℕ) : ℚ) / d = 1 / 2 := by
      rw [div_eq_iff hpos.ne']
      have : (2 : ℚ) * (n % d : ℕ) = d := by
        exact_mod_cast le_antisymm (Nat.le_of_not_lt hup) (Nat.le_of_not_lt hdown)
      linarith
    rw [hhalf]
    rcases Nat.mod_two_eq_zero_or_one (n / d) with hparity | hparity <;> rw [hparity]
    · rw [add_zero]
      exact ⟨le_rfl, by linarith, fun _ => Nat.even_iff.mpr hparity⟩
    · have hnext : ((n / d + 1 : ℕ) : ℚ) = (n / d : ℕ) + 1 := Nat.cast_succ _
      exact ⟨by linarith, by linarith, fun _ => Nat.even_add_one.mpr (Nat.not_even_iff.mpr hparity)⟩

theorem halfEven_scaleEven (n : ℕ) (k : ℤ) : HalfEven (n * 2 ^ k) (scaleEven n k) := by
  unfold scaleEven
  split
  · next hk =>
    obtain ⟨j, rfl⟩ := Int.eq_ofNat_of_zero_le hk
    rw [Int.toNat_natCast, zpow_natCast]
    exact_mod_cast halfEven_natCast (n * 2 ^ j)
  · next hk =>
    obtain ⟨j, rfl⟩ : ∃ j : ℕ, k = -j := ⟨(-k).toNat, by omega⟩
    have hd := halfEven_divideEven n (Nat.two_pow_pos j)
    rw [neg_neg, Int.toNat_natCast, zpow_neg, zpow_natCast, ← div_eq_mul_inv]
    push_cast at hd
    exact hd

namespace HalfEven

variable {t : ℚ} {s n : ℕ}

lemma le_of_lt (h : HalfEven t s) (ht : t < n) : s ≤ n := by
  have hlower := h.lower
  have hlt : (s : ℚ) < (n + 1 : ℕ) := by push_cast; linarith
  exact Nat.lt_succ_iff.mp (by exact_mod_cast hlt)

lemma le_of_le (h : HalfEven t s) (ht : n ≤ t) : n ≤ s := by
  have hupper := h.upper
  have hlt : (n : ℚ) < (s + 1 : ℕ) := by push_cast; linarith
  exact Nat.lt_succ_iff.mp (by exact_mod_cast hlt)

end HalfEven

section Significands

variable {f} {t : ℚ} {k s : ℕ} (h : HalfEven t s) (hlt : t < (2 ^ (f.fractionBits + 1) : ℕ))
  (hk : k = 0 ∨ ((2 ^ f.fractionBits : ℕ) : ℚ) ≤ t)
include h hlt hk

/-- A number that is rounded to a significand is not behind the midpoint that follows. -/
lemma le_midpoint_of_halfEven :
    t * 2 ^ (f.leastExponent + k) ≤ f.midpoint (k * 2 ^ f.fractionBits + s) ∧
      (t * 2 ^ (f.leastExponent + k) = f.midpoint (k * 2 ^ f.fractionBits + s) → Even s) := by
  have hunit : (0 : ℚ) < 2 ^ (f.leastExponent + k) := by positivity
  have hnormal : k = 0 ∨ 2 ^ f.fractionBits ≤ s := hk.imp_right h.le_of_le
  rcases (h.le_of_lt hlt).lt_or_eq with hs | rfl
  · rw [f.midpoint_of_significand hs hnormal, mul_left_inj' hunit.ne']
    exact ⟨mul_le_mul_of_nonneg_right h.upper hunit.le, fun htie => h.even (.inl htie)⟩
  · -- The number was rounded up to the next exponent, where the midpoint is farther away.
    have hvalue := f.value_of_significand le_rfl hnormal
    have hless : t * 2 ^ (f.leastExponent + k) < f.midpoint (k * 2 ^ f.fractionBits + _) :=
      ((mul_lt_mul_iff_left₀ hunit).mpr hlt).trans (hvalue ▸ f.value_lt_midpoint _)
    exact ⟨hless.le, fun htie => absurd htie hless.ne⟩

/-- A number that is rounded to a significand is not in front of the midpoint before it. -/
lemma midpoint_le_of_halfEven {l : ℕ} (hl : k * 2 ^ f.fractionBits + s = l + 1) :
    f.midpoint l ≤ t * 2 ^ (f.leastExponent + k) ∧
      (t * 2 ^ (f.leastExponent + k) = f.midpoint l → Even s) := by
  have hunit : (0 : ℚ) < 2 ^ (f.leastExponent + k) := by positivity
  have hs : s ≤ 2 ^ (f.fractionBits + 1) := h.le_of_lt hlt
  have hnormal : k = 0 ∨ 2 ^ f.fractionBits ≤ s := hk.imp_right h.le_of_le
  by_cases hprevious : 1 ≤ s ∧ (k = 0 ∨ 2 ^ f.fractionBits ≤ s - 1)
  · obtain ⟨r, rfl⟩ : ∃ r, s = r + 1 := ⟨s - 1, by omega⟩
    obtain rfl : l = k * 2 ^ f.fractionBits + r := by omega
    have hbelow := h.lower
    push_cast at hbelow
    rw [f.midpoint_of_significand hs hprevious.2, mul_left_inj' hunit.ne']
    refine ⟨mul_le_mul_of_nonneg_right (by linarith) hunit.le, fun htie => h.even (.inr ?_)⟩
    push_cast
    linarith
  · -- Nothing is rounded up to the least significand of an exponent.
    have hpos := Nat.two_pow_pos f.fractionBits
    have hleast : k ≠ 0 ∧ s = 2 ^ f.fractionBits := by
      rcases hnormal with rfl | hnormal <;> omega
    have hle : (s : ℚ) ≤ t := by
      rw [hleast.2]
      exact hk.resolve_left hleast.1
    have hless : f.midpoint l < t * 2 ^ (f.leastExponent + k) := by
      have hmid := f.midpoint_lt_value l
      rw [← hl, f.value_of_significand hs hnormal] at hmid
      exact hmid.trans_le (mul_le_mul_of_nonneg_right hle hunit.le)
    exact ⟨hless.le, fun htie => absurd htie hless.ne'⟩

/-- A number that is rounded to a significand of an exponent is rounded to its pattern. -/
lemma rounded_of_halfEven (hf : 1 ≤ f.fractionBits) :
    f.Rounded (t * 2 ^ (f.leastExponent + k)) (k * 2 ^ f.fractionBits + s) := by
  have hupper := le_midpoint_of_halfEven h hlt hk
  have heven : Even s → Even (k * 2 ^ f.fractionBits + s) := fun hs =>
    ((Nat.even_pow.mpr ⟨even_two, by omega⟩).mul_left k).add hs
  refine ⟨hupper.1, fun l hl => ?_, ?_⟩
  · obtain ⟨j, hj⟩ : ∃ j, k * 2 ^ f.fractionBits + s = j + 1 :=
      ⟨k * 2 ^ f.fractionBits + s - 1, by omega⟩
    have hbelow := midpoint_le_of_halfEven h hlt hk hj
    exact (f.midpoint_strictMono.monotone (by omega)).trans hbelow.1
  · rintro (htie | ⟨l, hl, htie⟩)
    · exact heven (hupper.2 htie)
    · exact heven ((midpoint_le_of_halfEven h hlt hk hl).2 htie)

end Significands

/-- Rounding finds the pattern of a number. -/
theorem rounded_ofScaled (hf : 1 ≤ f.fractionBits) (n : ℕ) (e : ℤ) :
    f.Rounded (n * 2 ^ e) (f.ofScaled n e) := by
  by_cases hn : n = 0
  · have hhalf : HalfEven 0 0 := by exact_mod_cast halfEven_natCast 0
    have hzero := rounded_of_halfEven (f := f) (k := 0) hhalf (by positivity) (.inl rfl) hf
    rw [zero_mul, zero_mul, add_zero] at hzero
    rw [ofScaled, if_pos hn, hn, Nat.cast_zero, zero_mul]
    exact hzero
  · obtain ⟨u, hu⟩ : ∃ u, u = max ((n.log2 : ℤ) + e - f.fractionBits) f.leastExponent := ⟨_, rfl⟩
    obtain ⟨k, hk⟩ : ∃ k : ℕ, u = f.leastExponent + k :=
      ⟨(u - f.leastExponent).toNat, by omega⟩
    have hcount : (u - f.leastExponent).toNat = k := by omega
    have hlt : (n : ℚ) * 2 ^ (e - u) < (2 ^ (f.fractionBits + 1) : ℕ) := by
      calc (n : ℚ) * 2 ^ (e - u) < 2 ^ ((n.log2 + 1 : ℕ) + (e - u)) :=
            lt_two_zpow Nat.lt_log2_self (e - u)
        _ ≤ 2 ^ ((f.fractionBits + 1 : ℕ) : ℤ) :=
            zpow_le_zpow_right₀ one_le_two (by omega)
        _ = (2 ^ (f.fractionBits + 1) : ℕ) := by rw [zpow_natCast]; push_cast; rfl
    have hnormal : k = 0 ∨ ((2 ^ f.fractionBits : ℕ) : ℚ) ≤ n * 2 ^ (e - u) := by
      rcases Nat.eq_zero_or_pos k with h0 | hpos
      · exact .inl h0
      · have hexponent : (f.fractionBits : ℤ) = n.log2 + (e - u) := by omega
        have hge := two_pow_mul_le (Nat.log2_self_le hn) (e - u)
        rw [← hexponent, zpow_natCast] at hge
        exact .inr (by exact_mod_cast hge)
    have hrounded := rounded_of_halfEven (halfEven_scaleEven n (e - u)) hlt hnormal hf
    have hscale : (n : ℚ) * 2 ^ (e - u) * 2 ^ (f.leastExponent + k) = n * 2 ^ e := by
      rw [← hk, mul_assoc, ← zpow_add₀ two_ne_zero, sub_add_cancel]
    rw [hscale] at hrounded
    rw [ofScaled, if_neg hn, ← hu]
    simp only [hcount]
    exact hrounded

end BinaryLayout.FloatFormat
