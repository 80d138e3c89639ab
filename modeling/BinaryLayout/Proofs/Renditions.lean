import BinaryLayout.Value.Literal
import Mathlib.Data.Nat.Notation
import Mathlib.Tactic.Ring

/-!
# What numbers, bytes and values are shown as

A number that is shown in hexadecimal reads back as itself, the way that a command line reads it.
So do bytes that are shown as pairs of digits, and their bits come in order, those of greater
weight first. None of these has a line break, and no more has the literal of a value that can be
read from a field, where line breaks are escaped.
-/
namespace BinaryLayout

/-! ## Digits -/

namespace Numeral

def digit (d : ℕ) : CodePoint := CodePoint.ofChar (Nat.digitChar d)

variable {base d : ℕ} {ds : List ℕ}

lemma ofDigits_append_singleton (base : ℕ) (ds : List ℕ) (d : ℕ) :
    ofDigits base (ds ++ [d]) = base * ofDigits base ds + d := by
  simp only [ofDigits, List.foldl_append, List.foldl_cons, List.foldl_nil]

lemma ofDigits_replicate_zero (base n : ℕ) (ds : List ℕ) :
    ofDigits base (List.replicate n 0 ++ ds) = ofDigits base ds := by
  induction n with
  | zero => rfl
  | succ n ih => simpa [ofDigits, List.replicate_succ] using ih

/-- A number is written in digits of its base that amount to it. -/
lemma exists_toDigits (hb : 1 < base) (n : ℕ) :
    ∃ ds, ds ≠ [] ∧ (∀ d ∈ ds, d < base) ∧ Nat.toDigits base n = ds.map Nat.digitChar ∧
      ofDigits base ds = n := by
  -- The last digit is split off, and what is left is a smaller number.
  induction n using Nat.strongRecOn with
  | ind n ih =>
    rw [Nat.toDigits_eq_if hb]
    split
    · next hlt => exact ⟨[n], by simp, by simpa using hlt, rfl, by simp [ofDigits]⟩
    · next hge =>
      have hsmaller : n / base < n := Nat.div_lt_self (by omega) hb
      obtain ⟨ds, -, hds, hdigits, hvalue⟩ := ih (n / base) hsmaller
      have hlast : n % base < base := Nat.mod_lt n (by omega)
      refine ⟨ds ++ [n % base], by simp, ?_, by rw [hdigits, List.map_append]; rfl, ?_⟩
      · simpa [or_imp, forall_and] using ⟨hds, hlast⟩
      · rw [ofDigits_append_singleton, hvalue, Nat.div_add_mod]

/-- The places that are filled with zeros are digits too. -/
lemma exists_hexOfNat (width n : ℕ) :
    ∃ ds, ds ≠ [] ∧ (∀ d ∈ ds, d < 16) ∧ hexOfNat width n = ds.map digit ∧
      ofDigits 16 ds = n := by
  obtain ⟨ds, hne, hds, hdigits, hvalue⟩ := exists_toDigits (show 1 < 16 by decide) n
  refine ⟨List.replicate (width - ds.length) 0 ++ ds, by simp [hne], ?_, ?_, ?_⟩
  · simp only [List.mem_append, List.mem_replicate]
    rintro d (⟨-, rfl⟩ | hd)
    · decide
    · exact hds d hd
  · simp only [hexOfNat, padZeros, hdigits, List.length_map, List.map_append,
      List.map_replicate, List.map_map]
    rfl
  · rw [ofDigits_replicate_zero, hvalue]

/-! ## Reading digits back -/

/-- A hexadecimal digit reads back. It is neither an underscore nor a gap. -/
lemma read_digit (h : d < 16) :
    digitOf? 16 (digit d) = some d ∧ (digit d).val ≠ 0x5F ∧ isGap (digit d) = false := by
  have hall : ∀ d : Fin 16, digitOf? 16 (digit d) = some d.val ∧ (digit d).val ≠ 0x5F ∧
      isGap (digit d) = false := by decide
  exact hall ⟨d, h⟩

lemma digitRun?_map_digit (hne : ds ≠ []) (h : ∀ d ∈ ds, d < 16) :
    digitRun? 16 (ds.map digit) = some ds := by
  induction ds with
  | nil => exact absurd rfl hne
  | cons d ds ih =>
    obtain ⟨hd, hds⟩ := List.forall_mem_cons.mp h
    cases ds with
    | nil => simp [digitRun?, (read_digit hd).1]
    | cons u rest =>
      have hu := (read_digit (hds u List.mem_cons_self)).2.1
      have hrest := ih (List.cons_ne_nil _ _) hds
      simp only [List.map_cons] at hrest ⊢
      simp [digitRun?, (read_digit hd).1, hu, hrest]

lemma marked?_hexOfNat (width n : ℕ) : marked? 16 (hexOfNat width n) = some n := by
  obtain ⟨ds, hne, hds, hdigits, hvalue⟩ := exists_hexOfNat width n
  have hfirst : (ds.map digit).head?.any (·.val = 0x5F) = false := by
    cases ds with
    | nil => rfl
    | cons d ds => simpa using (read_digit (hds d List.mem_cons_self)).2.1
  rw [marked?, hdigits, hfirst, if_neg (by decide), digitRun?_map_digit hne hds]
  exact congrArg some hvalue

lemma trim_gaps_eq_self {first last : CodePoint} (hfirst : isGap first = false) (mid : Text)
    (hlast : isGap last = false) :
    (((first :: (mid ++ [last])).dropWhile isGap).reverse.dropWhile isGap).reverse =
      first :: (mid ++ [last]) := by
  have hreverse : (first :: (mid ++ [last])).reverse = last :: (first :: mid).reverse := by simp
  rw [List.dropWhile_cons_of_neg (by simp [hfirst]), hreverse,
    List.dropWhile_cons_of_neg (by simp [hlast]), ← hreverse, List.reverse_reverse]

/-- A literal in hexadecimal stands for the number that was shown. -/
theorem parse?_hexOfNat (width n : ℕ) :
    parse? (.join ["0x", hexOfNat width n]) = some (n : ℤ) := by
  obtain ⟨ds, hne, hds, hdigits, -⟩ := exists_hexOfNat width n
  have hmarked := marked?_hexOfNat width n
  obtain ⟨init, last, rfl⟩ : ∃ init last, ds = init ++ [last] :=
    ⟨_, _, (List.dropLast_concat_getLast hne).symm⟩
  have hlast := (read_digit (hds last (by simp))).2.2
  have htext : Text.join ["0x", hexOfNat width n] =
      CodePoint.ofChar '0' :: (CodePoint.ofChar 'x' :: init.map digit ++ [digit last]) := by
    simp [hdigits, Text.join, Text.ofString]
  have hzero : isGap (CodePoint.ofChar '0') = false := by decide
  have hbody := trim_gaps_eq_self hzero (CodePoint.ofChar 'x' :: init.map digit) hlast
  have hunsigned : unsigned? (CodePoint.ofChar '0' ::
      (CodePoint.ofChar 'x' :: init.map digit ++ [digit last])) = some n := by
    rw [hdigits, List.map_append] at hmarked
    exact hmarked
  rw [htext, parse?, hbody]
  exact congrArg (Option.map Int.ofNat) hunsigned

end Numeral

/-! ## Bytes -/

namespace Bytes

/-- The bytes that pairs of hexadecimal digits stand for. -/
def ofHex? : Text → Option Bytes
  | [] => some []
  | [_] => none
  | high :: low :: rest => do
    let h ← Numeral.digitOf? 16 high
    let l ← Numeral.digitOf? 16 low
    let others ← ofHex? rest
    return UInt8.ofNat (16 * h + l) :: others

/-- Bytes that are shown in digits read back. -/
theorem ofHex?_hex (data : Bytes) : ofHex? (hex data) = some data := by
  induction data with
  | nil => rfl
  | cons b rest ih =>
    have hb := b.toNat_lt
    have hhigh := (Numeral.read_digit (show b.toNat / 16 < 16 by omega)).1
    have hlow := (Numeral.read_digit (show b.toNat % 16 < 16 by omega)).1
    have hpair : hex (b :: rest) =
        Numeral.digit (b.toNat / 16) :: Numeral.digit (b.toNat % 16) :: hex rest := rfl
    have hvalue : UInt8.ofNat (16 * (b.toNat / 16) + b.toNat % 16) = b := by
      rw [Nat.div_add_mod, UInt8.ofNat_toNat]
    rw [hpair, ofHex?, hhigh, hlow, ih]
    exact congrArg (fun b => some (b :: rest)) hvalue

end Bytes

/-! ## Bits -/

section Bits

variable [BitText] (h : BitText.InOrder)

include h

lemma BitText.InOrder.length_byte (b : UInt8) : (ofBytes [b]).length = 8 := by
  rw [h.byte, List.length_map, List.length_range]

lemma BitText.InOrder.nil : ofBytes [] = [] := by
  have happend := h.append [] []
  rw [List.append_nil] at happend
  exact List.self_eq_append_left.mp happend

theorem BitText.InOrder.length_ofBytes (data : Bytes) :
    (ofBytes data).length = 8 * data.length := by
  induction data with
  | nil => rw [h.nil]; rfl
  | cons b rest ih =>
    rw [← List.singleton_append, h.append, List.length_append, h.length_byte, ih,
      List.length_append, List.length_singleton, Nat.mul_add]

/-- The digits of a byte are where its bits are, the one of the greatest weight first. -/
theorem BitText.InOrder.getElem?_ofBytes {data : Bytes} {k j : ℕ} {b : UInt8}
    (hb : data[k]? = some b) (hj : j < 8) :
    (ofBytes data)[8 * k + j]? = some (bitDigit (b.toNat.testBit (7 - j))) := by
  induction data generalizing k with
  | nil => cases hb
  | cons first rest ih =>
    have hlength := h.length_byte first
    rw [← List.singleton_append, h.append]
    cases k with
    | zero =>
      obtain rfl := Option.some.inj hb
      rw [List.getElem?_append_left (by omega), h.byte, List.getElem?_map, Nat.mul_zero,
        Nat.zero_add, List.getElem?_range hj]
      rfl
    | succ k =>
      rw [List.getElem?_append_right (by omega), hlength,
        show 8 * (k + 1) + j - 8 = 8 * k + j by omega]
      exact ih hb

end Bits

/-! ## Texts without a line break -/

def newline : CodePoint := CodePoint.ofChar '\n'

lemma CodePoint.ofChar_ne_newline {c : Char} (h : c ≠ '\n') : ofChar c ≠ newline := by
  intro heq
  have hnat : c.toNat = '\n'.toNat := congrArg (fun x : CodePoint => x.val) heq
  exact h (Char.toNat_inj.mp hnat)

namespace Numeral

lemma newline_not_mem_map_digit (ds : List ℕ) : newline ∉ ds.map digit := by
  simp only [List.mem_map, not_exists, not_and]
  exact fun d _ => CodePoint.ofChar_ne_newline (Nat.digitChar_ne _ (by decide))

lemma newline_not_mem_ofNat (n : ℕ) : newline ∉ ofNat n := by
  obtain ⟨ds, -, -, hdigits, -⟩ := exists_toDigits (show 1 < 10 by decide) n
  rw [ofNat, hdigits, List.map_map]
  exact newline_not_mem_map_digit ds

lemma newline_not_mem_ofInt (n : ℤ) : newline ∉ ofInt n := by
  have hnat := newline_not_mem_ofNat n.natAbs
  unfold ofInt
  split
  · rw [List.mem_cons, not_or]
    exact ⟨by decide, hnat⟩
  · exact hnat

lemma newline_not_mem_hexOfNat (width n : ℕ) : newline ∉ hexOfNat width n := by
  obtain ⟨ds, -, -, hdigits, -⟩ := exists_hexOfNat width n
  rw [hdigits]
  exact newline_not_mem_map_digit ds

end Numeral

namespace Bytes

lemma newline_not_mem_hex (data : Bytes) : newline ∉ hex data := by
  simp only [hex, List.mem_flatMap, not_exists, not_and]
  exact fun b _ => Numeral.newline_not_mem_map_digit [b.toNat / 16, b.toNat % 16]

end Bytes

lemma BitText.InOrder.newline_not_mem [BitText] (h : BitText.InOrder) (data : Bytes) :
    newline ∉ ofBytes data := by
  have hdigit : ∀ set, newline ≠ bitDigit set := by decide
  induction data with
  | nil => rw [h.nil]; exact List.not_mem_nil
  | cons b rest ih =>
    rw [← List.singleton_append, h.append, h.byte, List.mem_append, List.mem_map, not_or]
    exact ⟨fun ⟨_, _, heq⟩ => hdigit _ heq.symm, ih⟩

namespace Quoted

lemma quoteFor_ne_newline (t : Text) : quoteFor t ≠ newline := by
  simp only [quoteFor]
  split <;> decide

lemma newline_not_mem_numericEscape {letter : String} (h : newline ∉ Text.ofString letter)
    (width : ℕ) (c : CodePoint) : newline ∉ numericEscape letter width c := by
  have hslash : newline ∉ Text.ofString "\\" := by decide
  simp only [numericEscape, Text.join, List.mem_flatten, List.mem_cons, List.not_mem_nil,
    or_false, not_exists, not_and]
  rintro piece (rfl | rfl | rfl)
  · exact hslash
  · exact h
  · exact Numeral.newline_not_mem_hexOfNat width c.val

lemma newline_not_mem_namedEscape {quote c : CodePoint} (hq : quote ≠ newline) {escaped : Text}
    (h : namedEscape? quote c = some escaped) : newline ∉ escaped := by
  unfold namedEscape? at h
  split_ifs at h with hself
  · obtain rfl := Option.some.inj h
    have hc : c ≠ newline := by
      rintro rfl
      exact hself.elim (fun heq => hq heq.symm) (by decide)
    simpa [hc.symm] using by decide
  all_goals
    obtain rfl := Option.some.inj h
    decide

lemma newline_not_mem_escape {quote : CodePoint} (hq : quote ≠ newline) (c : CodePoint) :
    newline ∉ escape quote c := by
  unfold escape
  cases h : namedEscape? quote c with
  | some escaped => exact newline_not_mem_namedEscape hq h
  | none =>
    have hc : newline ≠ c := by
      rintro rfl
      have hbreak : newline.val = 0x0A := rfl
      simp only [namedEscape?, hbreak] at h
      split_ifs at h
    dsimp only
    split_ifs
    · simpa using hc
    all_goals exact newline_not_mem_numericEscape (by decide) _ c

lemma newline_not_mem_ofText (t : Text) : newline ∉ ofText t := by
  have hq := quoteFor_ne_newline t
  simp only [ofText, List.mem_cons, List.mem_append, List.mem_flatMap, List.not_mem_nil, or_false,
    not_or, not_exists, not_and]
  exact ⟨⟨hq.symm, fun c _ => newline_not_mem_escape hq c⟩, hq.symm⟩

end Quoted

namespace Shortest

variable {digits : Text}

lemma newline_not_mem_replicate {c : CodePoint} (hc : newline ≠ c) (n : ℕ) :
    newline ∉ List.replicate n c := fun h => hc (List.eq_of_mem_replicate h)

lemma newline_not_mem_trimZeros (h : newline ∉ digits) : newline ∉ trimZeros digits := by
  rw [trimZeros, List.mem_reverse]
  intro hmem
  exact h (List.mem_reverse.mp ((List.dropWhile_sublist _).mem hmem))

lemma newline_not_mem_exponentText (e : ℤ) : newline ∉ exponentText e := by
  have hnat := Numeral.newline_not_mem_ofNat e.natAbs
  have hsign : newline ≠ CodePoint.ofChar (if e < 0 then '-' else '+') := by split <;> decide
  simp only [exponentText, Numeral.padZeros, List.mem_cons, List.mem_append, not_or]
  exact ⟨by decide, hsign, newline_not_mem_replicate (by decide) _, hnat⟩

lemma newline_not_mem_layOut (h : newline ∉ digits) (place : ℤ) :
    newline ∉ layOut digits place := by
  have htake : ∀ n, newline ∉ digits.take n := fun n hmem => h (List.mem_of_mem_take hmem)
  have hdrop : ∀ n, newline ∉ digits.drop n := fun n hmem => h (List.mem_of_mem_drop hmem)
  have htail : newline ∉ digits.tail := fun hmem => h (List.mem_of_mem_tail hmem)
  have hzero : newline ≠ CodePoint.ofChar '0' := by decide
  have hzeros := newline_not_mem_replicate hzero
  have hpoint : newline ≠ CodePoint.ofChar '.' := by decide
  have hlead : newline ∉ Text.ofString "0." := by decide
  simp only [layOut]
  split_ifs <;> simp [*, newline_not_mem_exponentText]

lemma newline_not_mem_magnitudeText (pattern : ℕ) : newline ∉ magnitudeText pattern := by
  have hzero : newline ∉ Text.ofString "0.0" := by decide
  unfold magnitudeText
  split
  · exact hzero
  · exact newline_not_mem_layOut (newline_not_mem_trimZeros (Numeral.newline_not_mem_ofNat _)) _

lemma newline_not_mem_text (x : Binary64) : newline ∉ text x := by
  have hnan : newline ∉ Text.ofString "nan" := by decide
  have hinf : newline ∉ Text.ofString "inf" := by decide
  have hminus : newline ≠ CodePoint.ofChar '-' := by decide
  have hfinite := newline_not_mem_magnitudeText x.magnitude
  unfold text
  split_ifs <;> simp [*]

end Shortest

end BinaryLayout
