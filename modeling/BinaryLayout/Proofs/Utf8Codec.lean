import BinaryLayout.Text.Utf8
import Mathlib.Data.List.TakeWhile
import Mathlib.Tactic.NormNum

/-!
# Texts and their encoded forms

Encoding and strict decoding are inverse to each other: a text without surrogates is read back
from its bytes, and bytes that are read at all are the encoded form of what is read. Both
directions go through `Form`, the shape of one encoded code point as the decoder sees it.
-/
namespace BinaryLayout.Utf8

/-! ## One code point -/

/-- Bytes that continue a code point; the bounds are for the first of them. -/
def Tails : ℕ → ℕ → Bytes → Prop
  | _, _, [] => True
  | low, high, b :: rest => (low ≤ b.toNat ∧ b.toNat ≤ high) ∧ Tails 0x80 0xBF rest

/-- The first byte of a code point with the bytes that continue it. -/
def Form (b : UInt8) (tails : Bytes) (c : CodePoint) : Prop :=
  ∃ lead, lead? b = some lead ∧ tails.length = lead.tails ∧ Tails lead.low lead.high tails ∧
    assemble lead.bits tails = c

lemma countTails_append {low high : ℕ} {tails : Bytes} (h : Tails low high tails) (rest : Bytes) :
    countTails tails.length low high (tails ++ rest) = tails.length := by
  induction tails generalizing low high with
  | nil => rfl
  | cons b tails ih =>
    obtain ⟨hb, ht⟩ := h
    rw [List.length_cons, List.cons_append, countTails, if_pos hb, ih ht, Nat.add_comm]

lemma exists_of_countTails_eq {n low high : ℕ} {data : Bytes}
    (h : countTails n low high data = n) :
    ∃ tails rest, data = tails ++ rest ∧ tails.length = n ∧ Tails low high tails := by
  induction n generalizing low high data with
  | zero => exact ⟨[], data, rfl, rfl, trivial⟩
  | succ n ih =>
    match data with
    | [] => simp [countTails] at h
    | b :: data =>
      rw [countTails] at h
      split at h
      · next hb =>
        obtain ⟨tails, rest, rfl, hl, ht⟩ := ih (show countTails n 0x80 0xBF data = n by omega)
        exact ⟨b :: tails, rest, rfl, by rw [List.length_cons, hl], hb, ht⟩
      · omega

/-- A complete code point at the start is read off. -/
lemma decodeFrom_form {b : UInt8} {tails : Bytes} {c : CodePoint} (h : Form b tails c)
    (position : ℕ) (rest : Bytes) :
    decodeFrom position (b :: tails ++ rest) =
      (c :: ·) <$> decodeFrom (position + 1 + tails.length) rest := by
  obtain ⟨lead, hb, hl, ht, rfl⟩ := h
  have hc := countTails_append ht rest
  rw [List.cons_append, decodeFrom]
  simp only [hb, ← hl, hc, if_true, List.take_left, List.drop_left]

/-- What is read off at the start is a complete code point. -/
lemma exists_form {position : ℕ} {b : UInt8} {data : Bytes} {t : Text}
    (h : decodeFrom position (b :: data) = .ok t) :
    ∃ tails rest c others, Form b tails c ∧ data = tails ++ rest ∧ t = c :: others ∧
      decodeFrom (position + 1 + tails.length) rest = .ok others := by
  rw [decodeFrom] at h
  split at h
  · cases h
  · next lead hb =>
    simp only at h
    split at h
    · next hc =>
      obtain ⟨tails, rest, rfl, hl, ht⟩ := exists_of_countTails_eq hc
      rw [hc, ← hl, List.take_left, List.drop_left] at h
      cases ho : decodeFrom (position + 1 + tails.length) rest with
      | error fault => rw [ho] at h; cases h
      | ok others =>
        rw [ho] at h
        cases h
        exact ⟨tails, rest, _, others, ⟨lead, hb, hl, ht, rfl⟩, rfl, rfl, ho⟩
    · cases h

lemma toNat_ofNat {n : ℕ} (h : n < 256) : (UInt8.ofNat n).toNat = n := by
  rw [UInt8.toNat_ofNat']
  omega

lemma toNat_tailByte (n shift : ℕ) : (tailByte n shift).toNat = 0x80 + n / 2 ^ shift % 0x40 :=
  toNat_ofNat (by omega)

lemma ofNat_eq {n : ℕ} {b : UInt8} (h : n = b.toNat) : UInt8.ofNat n = b := by
  rw [h, UInt8.ofNat_toNat]

lemma tailByte_eq {n shift : ℕ} {b : UInt8} (h : 0x80 + n / 2 ^ shift % 0x40 = b.toNat) :
    tailByte n shift = b := ofNat_eq h

lemma isSurrogate_eq_false {c : CodePoint} (h : c.val < 0xD800 ∨ 0xDFFF < c.val) :
    c.isSurrogate = false := by
  simp only [CodePoint.isSurrogate, Bool.and_eq_false_iff, decide_eq_false_iff_not]
  omega

lemma lead?_two {m : ℕ} (h2 : 2 ≤ m) (h : m < 0x20) :
    lead? (UInt8.ofNat (0xC0 + m)) = some ⟨1, 0x80, 0xBF, m⟩ := by
  rw [lead?, toNat_ofNat (by omega), if_neg (by omega), if_neg (by omega), if_pos (by omega),
    Nat.add_sub_cancel_left]

lemma lead?_three {m : ℕ} (h : m < 0x10) :
    lead? (UInt8.ofNat (0xE0 + m)) =
      some ⟨2, if 0xE0 + m = 0xE0 then 0xA0 else 0x80, if 0xE0 + m = 0xED then 0x9F else 0xBF,
        m⟩ := by
  rw [lead?, toNat_ofNat (by omega), if_neg (by omega), if_neg (by omega), if_neg (by omega),
    if_pos (by omega), Nat.add_sub_cancel_left]

lemma lead?_four {m : ℕ} (h : m < 5) :
    lead? (UInt8.ofNat (0xF0 + m)) =
      some ⟨3, if 0xF0 + m = 0xF0 then 0x90 else 0x80, if 0xF0 + m = 0xF4 then 0x8F else 0xBF,
        m⟩ := by
  rw [lead?, toNat_ofNat (by omega), if_neg (by omega), if_neg (by omega), if_neg (by omega),
    if_neg (by omega), if_pos (by omega), Nat.add_sub_cancel_left]

/-- The encoded form of a code point that is no surrogate. -/
lemma form_encodeCodePoint {c : CodePoint} (hc : c.isSurrogate = false) :
    ∃ b tails, encodeCodePoint c = b :: tails ∧ Form b tails c := by
  obtain ⟨n, hn⟩ := c
  have hs : n < 0xD800 ∨ 0xDFFF < n := by
    simp only [CodePoint.isSurrogate, Bool.and_eq_false_iff, decide_eq_false_iff_not] at hc
    omega
  have h0 := toNat_tailByte n 0
  have h6 := toNat_tailByte n 6
  have h12 := toNat_tailByte n 12
  unfold encodeCodePoint
  simp only
  split_ifs with h1 h2 h3
  · have hb : lead? (UInt8.ofNat n) = some ⟨0, 0x80, 0xBF, n⟩ := by
      rw [lead?, toNat_ofNat (by omega)]
      exact if_pos h1
    exact ⟨_, _, rfl, _, hb, rfl, trivial, Fin.ext (Nat.mod_eq_of_lt hn)⟩
  · refine ⟨_, _, rfl, _, lead?_two (by omega) (by omega), rfl, ⟨?_, trivial⟩, ?_⟩
    · simp only
      omega
    apply Fin.ext
    simp only [assemble, List.foldl_cons, List.foldl_nil, h0, Fin.ofNat]
    omega
  · refine ⟨_, _, rfl, _, lead?_three (by omega), rfl, ⟨?_, by omega, trivial⟩, ?_⟩
    · simp only
      split <;> split <;> omega
    · apply Fin.ext
      simp only [assemble, List.foldl_cons, List.foldl_nil, h0, h6, Fin.ofNat]
      omega
  · refine ⟨_, _, rfl, _, lead?_four (by omega), rfl, ⟨?_, by omega, by omega, trivial⟩, ?_⟩
    · simp only
      split <;> split <;> omega
    · apply Fin.ext
      simp only [assemble, List.foldl_cons, List.foldl_nil, h0, h6, h12, Fin.ofNat]
      omega

/-- The first bytes, with the bounds of the second one. -/
lemma lead?_eq_some {b : UInt8} {lead : Lead} (h : lead? b = some lead) :
    (b.toNat < 0x80 ∧ lead = ⟨0, 0x80, 0xBF, b.toNat⟩) ∨
    (0xC2 ≤ b.toNat ∧ b.toNat < 0xE0 ∧ lead = ⟨1, 0x80, 0xBF, b.toNat - 0xC0⟩) ∨
    (0xE0 ≤ b.toNat ∧ b.toNat < 0xF0 ∧ lead = ⟨2, if b.toNat = 0xE0 then 0xA0 else 0x80,
      if b.toNat = 0xED then 0x9F else 0xBF, b.toNat - 0xE0⟩) ∨
    (0xF0 ≤ b.toNat ∧ b.toNat < 0xF5 ∧ lead = ⟨3, if b.toNat = 0xF0 then 0x90 else 0x80,
      if b.toNat = 0xF4 then 0x8F else 0xBF, b.toNat - 0xF0⟩) := by
  unfold lead? at h
  simp only at h
  split at h
  · exact .inl ⟨by omega, (Option.some_injective _ h).symm⟩
  split at h
  · cases h
  split at h
  · exact .inr (.inl ⟨by omega, by omega, (Option.some_injective _ h).symm⟩)
  split at h
  · exact .inr (.inr (.inl ⟨by omega, by omega, (Option.some_injective _ h).symm⟩))
  split at h
  · exact .inr (.inr (.inr ⟨by omega, by omega, (Option.some_injective _ h).symm⟩))
  · cases h

/-- Only the encoded form of a code point is read as that code point. -/
lemma encodeCodePoint_of_form {b : UInt8} {tails : Bytes} {c : CodePoint} (h : Form b tails c) :
    c.isSurrogate = false ∧ encodeCodePoint c = b :: tails := by
  obtain ⟨lead, hb, hl, ht, rfl⟩ := h
  obtain ⟨h1, rfl⟩ | ⟨h1, h2, rfl⟩ | ⟨h1, h2, rfl⟩ | ⟨h1, h2, rfl⟩ := lead?_eq_some hb
  · match tails with
    | [] =>
      have hn : (assemble b.toNat []).val = b.toNat :=
        Nat.mod_eq_of_lt (show b.toNat < 0x110000 by omega)
      refine ⟨isSurrogate_eq_false (by simp only [hn]; omega), ?_⟩
      simp only [encodeCodePoint, hn, if_pos h1, UInt8.ofNat_toNat]
  · match tails with
    | [t] =>
      obtain ⟨ht, -⟩ := ht
      simp only at ht ⊢
      have hn : (assemble (b.toNat - 0xC0) [t]).val =
          (b.toNat - 0xC0) * 0x40 + t.toNat % 0x40 := by
        simp only [assemble, List.foldl_cons, List.foldl_nil, Fin.ofNat]
        omega
      refine ⟨isSurrogate_eq_false (by omega), ?_⟩
      simp only [encodeCodePoint, hn]
      rw [if_neg (by omega), if_pos (by omega), ofNat_eq (b := b) (by omega),
        tailByte_eq (b := t) (by omega)]
  · match tails with
    | [t, u] =>
      obtain ⟨ht, hu, -⟩ := ht
      simp only at ht hu ⊢
      have hn : (assemble (b.toNat - 0xE0) [t, u]).val =
          ((b.toNat - 0xE0) * 0x40 + t.toNat % 0x40) * 0x40 + u.toNat % 0x40 := by
        simp only [assemble, List.foldl_cons, List.foldl_nil, Fin.ofNat]
        omega
      have hlow : b.toNat = 0xE0 → 0xA0 ≤ t.toNat := fun h => by rw [if_pos h] at ht; exact ht.1
      have hhigh : b.toNat = 0xED → t.toNat ≤ 0x9F := fun h => by
        rw [if_pos h] at ht; exact ht.2
      have htail : 0x80 ≤ t.toNat ∧ t.toNat ≤ 0xBF := by split at ht <;> split at ht <;> omega
      refine ⟨isSurrogate_eq_false (by omega), ?_⟩
      simp only [encodeCodePoint, hn]
      rw [if_neg (by omega), if_neg (by omega), if_pos (by omega), ofNat_eq (b := b) (by omega),
        tailByte_eq (b := t) (by omega), tailByte_eq (b := u) (by omega)]
  · match tails with
    | [t, u, v] =>
      obtain ⟨ht, hu, hv, -⟩ := ht
      simp only at ht hu hv ⊢
      have hlow : b.toNat = 0xF0 → 0x90 ≤ t.toNat := fun h => by rw [if_pos h] at ht; exact ht.1
      have hhigh : b.toNat = 0xF4 → t.toNat ≤ 0x8F := fun h => by
        rw [if_pos h] at ht; exact ht.2
      have htail : 0x80 ≤ t.toNat ∧ t.toNat ≤ 0xBF := by split at ht <;> split at ht <;> omega
      have hn : (assemble (b.toNat - 0xF0) [t, u, v]).val =
          (((b.toNat - 0xF0) * 0x40 + t.toNat % 0x40) * 0x40 + u.toNat % 0x40) * 0x40 +
            v.toNat % 0x40 := by
        simp only [assemble, List.foldl_cons, List.foldl_nil, Fin.ofNat]
        omega
      refine ⟨isSurrogate_eq_false (by omega), ?_⟩
      simp only [encodeCodePoint, hn]
      rw [if_neg (by omega), if_neg (by omega), if_neg (by omega), ofNat_eq (b := b) (by omega),
        tailByte_eq (b := t) (by omega), tailByte_eq (b := u) (by omega),
        tailByte_eq (b := v) (by omega)]

/-! ## Texts -/

lemma decodeFrom_encodeCodePoint {c : CodePoint} (hc : c.isSurrogate = false) (position : ℕ)
    (rest : Bytes) :
    decodeFrom position (encodeCodePoint c ++ rest) =
      (c :: ·) <$> decodeFrom (position + (encodeCodePoint c).length) rest := by
  obtain ⟨b, tails, hb, hf⟩ := form_encodeCodePoint hc
  rw [hb, decodeFrom_form hf, List.length_cons, Nat.add_assoc, Nat.add_comm 1]

def Encodable (t : Text) : Prop := ∀ c ∈ t, c.isSurrogate = false

/-- The encoded form of a text, code point by code point. -/
def bytes (t : Text) : Bytes := t.flatMap encodeCodePoint

lemma decodeFrom_bytes {t : Text} (h : Encodable t) (position : ℕ) :
    decodeFrom position (bytes t) = .ok t := by
  induction t generalizing position with
  | nil => rw [bytes, List.flatMap_nil, decodeFrom]
  | cons c t ih =>
    rw [bytes, List.flatMap_cons, decodeFrom_encodeCodePoint (h c List.mem_cons_self)]
    rw [← bytes, ih fun c hc => h c (List.mem_cons_of_mem _ hc)]
    rfl

/-- Only the bytes of a text are read as that text. -/
lemma bytes_of_decodeFrom {position : ℕ} {data : Bytes} {t : Text}
    (h : decodeFrom position data = .ok t) : Encodable t ∧ bytes t = data := by
  induction t generalizing position data with
  | nil =>
    match data with
    | [] => exact ⟨fun c hc => absurd hc List.not_mem_nil, rfl⟩
    | b :: data =>
      obtain ⟨_, _, _, _, _, _, ht, _⟩ := exists_form h
      cases ht
  | cons c t ih =>
    match data with
    | [] => rw [decodeFrom] at h; cases h
    | b :: data =>
      obtain ⟨tails, rest, c', others, hf, rfl, ht, ho⟩ := exists_form h
      cases ht
      obtain ⟨hs, hc⟩ := encodeCodePoint_of_form hf
      obtain ⟨he, hb⟩ := ih ho
      refine ⟨fun d hd => ?_, ?_⟩
      · cases hd with
        | head => exact hs
        | tail _ hd => exact he d hd
      · rw [bytes, List.flatMap_cons, ← bytes, hb, hc, List.cons_append]

/-- Decoding accepts exactly the encoded forms, each as the text that it encodes. -/
theorem decode_eq_ok_iff {data : Bytes} {t : Text} :
    decode data = .ok t ↔ Encodable t ∧ bytes t = data := by
  constructor
  · exact bytes_of_decodeFrom
  · rintro ⟨h, rfl⟩
    exact decodeFrom_bytes h 0

/-- A text is encoded unless it holds surrogates. -/
theorem encode_eq_ok_iff {t : Text} {data : Bytes} :
    encode t = .ok data ↔ Encodable t ∧ bytes t = data := by
  have hd : t.dropWhile (!CodePoint.isSurrogate ·) = [] ↔ Encodable t := by
    simp [List.dropWhile_eq_nil_iff, Encodable]
  unfold encode surrogateRun?
  split
  · next run hrun =>
    split at hrun
    · cases hrun
    · next c rest hc =>
      have hn : ¬Encodable t := fun he => by rw [hd.mpr he] at hc; cases hc
      simp [hn]
  · next hrun =>
    split at hrun
    · next hc => simp [hd.mp hc, bytes]
    · cases hrun

end BinaryLayout.Utf8
