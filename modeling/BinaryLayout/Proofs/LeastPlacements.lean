import BinaryLayout.Proofs.Translations

/-!
# The least layout

The walk over the tokens of a format places each of them as soon as it may: behind the token before
it and, under the aligning byte order, at the next multiple of its alignment. No other way to put
the tokens one behind the other at aligned places has any of them earlier, whatever the offset they
start from. What a place leaves free in front of it is less than its alignment.
-/
namespace BinaryLayout

/-! ## Ways to arrange tokens -/

def Placement.token (p : Placement) : Token := ⟨p.count, .known p.specifier⟩

/-- Where a type may start: under an aligning byte order at the multiples of its alignment. -/
def ByteOrder.Allows (order : ByteOrder) (s : Specifier) (offset : ℤ) : Prop :=
  order.aligned = true → (s.alignment : ℤ) ∣ offset

/-- Each place is related to the offset where the one before it ends, the first one to the offset
that the places start from. -/
inductive Stepwise (R : ℤ → Placement → Prop) : ℤ → List Placement → Prop where
  | nil (start : ℤ) : Stepwise R start []
  | cons {start : ℤ} {p : Placement} {ps : List Placement} :
      R start p → Stepwise R p.stop ps → Stepwise R start (p :: ps)

/-- The tokens at places where they may start, none of them before the end of the one before it. -/
structure ByteOrder.Arranges (order : ByteOrder) (start : ℤ) (tokens : List Token)
    (ps : List Placement) : Prop where
  tokens : ps.map Placement.token = tokens
  places : Stepwise (fun stop p => stop ≤ p.offset ∧ order.Allows p.specifier p.offset) start ps

/-- The same token, at no later place. -/
def Placement.NoLater (p q : Placement) : Prop := p.token = q.token ∧ p.offset ≤ q.offset

lemma Placement.NoLater.stop_le {p q : Placement} (h : p.NoLater q) : p.stop ≤ q.stop := by
  obtain ⟨htoken, hoffset⟩ := h
  simp only [token, Token.mk.injEq, Code.known.injEq] at htoken
  obtain ⟨hcount, hspecifier⟩ := htoken
  rw [stop, stop, size, size, hcount, hspecifier]
  omega

/-! ## A single token -/

namespace ByteOrder

variable {order : ByteOrder} {s : Specifier}

lemma align_of_not_aligned (h : order.aligned = false) (s : Specifier) (offset : ℤ) :
    order.align s offset = offset :=
  if_neg (by simp [h])

lemma allows_align (order : ByteOrder) (s : Specifier) (offset : ℤ) :
    order.Allows s (order.align s offset) :=
  fun h => dvd_align h s offset

/-- There is less room in front of a type than would let it start earlier. -/
lemma align_lt_add (order : ByteOrder) (s : Specifier) (offset : ℤ) :
    order.align s offset < offset + s.alignment := by
  have hpos : (0 : ℤ) < s.alignment := by exact_mod_cast s.alignment_pos
  unfold align
  split
  · have hlt := padCount_lt offset hpos
    omega
  · omega

/-- A type is moved to the first offset where it may start. -/
lemma align_le {offset place : ℤ} (h : order.Allows s place) (hle : offset ≤ place) :
    order.align s offset ≤ place := by
  cases haligned : order.aligned with
  | false => rwa [align_of_not_aligned haligned]
  | true =>
    -- Two multiples that are less than the alignment apart are the same.
    obtain ⟨i, hi⟩ := dvd_align haligned s offset
    obtain ⟨j, hj⟩ := h haligned
    have hlt := order.align_lt_add s offset
    have hpos : (0 : ℤ) < s.alignment := by exact_mod_cast s.alignment_pos
    rw [hi] at hlt ⊢
    rw [hj] at hle ⊢
    have hij : (s.alignment : ℤ) * i < s.alignment * (j + 1) := by
      rw [Int.mul_add, Int.mul_one]
      omega
    have hle' : i ≤ j := Int.lt_add_one_iff.mp (Int.lt_of_mul_lt_mul_left hij hpos.le)
    exact Int.mul_le_mul_of_nonneg_left hle' hpos.le

end ByteOrder

/-! ## Tokens one behind the other -/

section Walks

variable {order : ByteOrder} {tokens : List Token} {start : ℤ} {ps : List Placement}

lemma map_token_of_place (h : place order start tokens = ps.map .ok) :
    ps.map Placement.token = tokens := by
  induction tokens generalizing start ps with
  | nil =>
    obtain rfl : ps = [] := List.map_eq_nil_iff.mp h.symm
    rfl
  | cons t rest ih =>
    obtain ⟨s, qs, hs, rfl, hqs⟩ := place_cons_eq_ok h
    rw [List.map_cons, ih hqs, Placement.token, ← Code.eq_known hs]

/-- What holds of each type wherever it is moved to holds of every step of a walk. -/
lemma stepwise_of_place {R : ℤ → Placement → Prop}
    (hR : ∀ stop count s, R stop ⟨order.align s stop, count, s⟩)
    (h : place order start tokens = ps.map .ok) : Stepwise R start ps := by
  induction tokens generalizing start ps with
  | nil =>
    obtain rfl : ps = [] := List.map_eq_nil_iff.mp h.symm
    exact .nil start
  | cons t rest ih =>
    obtain ⟨s, qs, -, rfl, hqs⟩ := place_cons_eq_ok h
    exact .cons (hR start t.count s) (ih hqs)

/-- The walk is one of the ways to arrange the tokens. -/
theorem arranges_of_place (h : place order start tokens = ps.map .ok) :
    order.Arranges start tokens ps :=
  ⟨map_token_of_place h,
    stepwise_of_place (fun stop _ s => ⟨order.le_align s stop, order.allows_align s stop⟩) h⟩

/-- Any other way from the same offset, or from a later one, has every token at the same place or
later. -/
theorem noLater_of_place {start' : ℤ} {qs : List Placement}
    (h : place order start tokens = ps.map .ok) (hq : order.Arranges start' tokens qs)
    (hle : start ≤ start') : List.Forall₂ Placement.NoLater ps qs := by
  induction tokens generalizing start start' ps qs with
  | nil =>
    obtain rfl : ps = [] := List.map_eq_nil_iff.mp h.symm
    obtain rfl : qs = [] := List.map_eq_nil_iff.mp hq.tokens
    exact .nil
  | cons t rest ih =>
    obtain ⟨s, ps, hs, rfl, hps⟩ := place_cons_eq_ok h
    obtain ⟨htokens, hplaces⟩ := hq
    obtain ⟨q, qs, rfl, rfl, hrest⟩ := List.map_eq_cons_iff.mp htokens
    obtain rfl : q.specifier = s := Except.ok.inj hs
    cases hplaces with
    | cons hplace htail =>
      -- The token is not later here, so it ends no later and what follows can start as early.
      have hfirst : Placement.NoLater ⟨order.align q.specifier start, q.token.count, q.specifier⟩
          q := ⟨rfl, ByteOrder.align_le hplace.2 (hle.trans hplace.1)⟩
      exact .cons hfirst (ih hps ⟨hrest, htail⟩ hfirst.stop_le)

end Walks

/-! ## Members of a structure -/

/-- The bytes of an element in a C compiler on a machine with 64 bits, and its alignment: a long has
eight. -/
def Specifier.nativeSize : Specifier → ℕ
  | .long32 | .ulong32 => 8
  | s => s.size

/-- The offsets that a C compiler gives to the members of a structure, arrays of so many elements
of some size: each at the end of the one before it, rounded up to a multiple of the size. -/
def memberOffsets : ℤ → List (ℤ × ℕ) → List ℤ
  | _, [] => []
  | stop, (count, size) :: members =>
    let offset := (stop + size - 1) / size * size
    offset :: memberOffsets (offset + count * size) members

/-- The types that a C compiler lays out in another way: the short, which is packed tightly here,
and the longs, which have four bytes here. -/
def Specifier.foreign : List Specifier := [.int16, .long32, .ulong32]

namespace Specifier

variable {s : Specifier}

lemma size_eq_nativeSize (h : s ∉ foreign) : s.size = s.nativeSize := by
  revert h
  cases s <;> decide

lemma alignment_eq_nativeSize (h : s ∉ foreign) : s.alignment = s.nativeSize := by
  revert h
  cases s <;> decide

end Specifier

lemma ByteOrder.align_eq_roundUp {order : ByteOrder} (h : order.aligned = true) (s : Specifier)
    (offset : ℤ) :
    order.align s offset = (offset + s.alignment - 1) / s.alignment * s.alignment := by
  have hpos : (0 : ℤ) < s.alignment := by exact_mod_cast s.alignment_pos
  obtain ⟨k, hk⟩ := dvd_align h s offset
  have hle := order.le_align s offset
  have hlt := order.align_lt_add s offset
  rw [hk] at hle hlt ⊢
  have hdiv : (offset + s.alignment - 1) / s.alignment = k := by
    rw [Int.ediv_eq_iff_of_pos hpos, Int.mul_comm k]
    omega
  rw [hdiv, Int.mul_comm]

/-- Aligned tokens of types that a C compiler knows are at the offsets of the members. -/
theorem map_offset_of_place {order : ByteOrder} (h : order.aligned = true) {tokens : List Token}
    {start : ℤ} {ps : List Placement} (hp : place order start tokens = ps.map .ok)
    (hs : ∀ p ∈ ps, p.specifier ∉ Specifier.foreign) :
    ps.map Placement.offset =
      memberOffsets start (ps.map fun p => (p.count, p.specifier.nativeSize)) := by
  induction tokens generalizing start ps with
  | nil =>
    obtain rfl : ps = [] := List.map_eq_nil_iff.mp hp.symm
    rfl
  | cons t rest ih =>
    obtain ⟨s, qs, -, rfl, hqs⟩ := place_cons_eq_ok hp
    have hknown : s ∉ Specifier.foreign := hs _ List.mem_cons_self
    have hrest := ih hqs fun p hp => hs p (List.mem_cons_of_mem _ hp)
    have hoffset := ByteOrder.align_eq_roundUp h s start
    rw [Specifier.alignment_eq_nativeSize hknown] at hoffset
    rw [List.map_cons, List.map_cons, memberOffsets, hrest, ← hoffset, Placement.stop,
      Placement.size, Specifier.size_eq_nativeSize hknown]

namespace Format

variable {f : Format}

/-- The tokens of an accepted descriptor are placed, from any offset on, one behind the other and
aligned where the byte order aligns, and no such arrangement has any token earlier. Under the other
byte orders there are no gaps, under the aligning one they are smaller than the alignment of what
follows. With the types that a C compiler knows the places are those of the members of a
structure. -/
theorem walk_least {d : Text} (hd : Descriptor.compile d = .ok f) (start : ℤ) :
    ∃ ps : List Placement, f.walk start = ps.map .ok ∧
      f.order.Arranges start f.tokens ps ∧
      (∀ qs, f.order.Arranges start f.tokens qs → List.Forall₂ Placement.NoLater ps qs) ∧
      (f.order.aligned = false → Stepwise (fun stop p => p.offset = stop) start ps) ∧
      Stepwise (fun stop p => p.offset - stop < p.specifier.alignment) start ps ∧
      (f.order.aligned = true → (∀ s ∈ Specifier.foreign, ∀ t ∈ f.tokens, t.code ≠ .known s) →
        ps.map Placement.offset =
          memberOffsets start (ps.map fun p => (p.count, p.specifier.nativeSize))) := by
  obtain ⟨ps, stop, hw, -⟩ := (Descriptor.wellFormed_of_compile hd).exists_chain start
  refine ⟨ps, hw, arranges_of_place hw, fun qs hq => noLater_of_place hw hq (le_refl start),
    fun horder => ?_, ?_, fun horder hs => ?_⟩
  · exact stepwise_of_place (fun stop _ s => ByteOrder.align_of_not_aligned horder s stop) hw
  · refine stepwise_of_place (fun stop _ s => ?_) hw
    have hlt := f.order.align_lt_add s stop
    simp only
    omega
  · refine map_offset_of_place horder hw fun p hp hmem => hs _ hmem p.token ?_ rfl
    rw [← map_token_of_place hw]
    exact List.mem_map_of_mem hp

/-- Four numbers from an offset below zero on. Only the last of them has a gap in front of it, as in
a structure, and no arrangement has it before the eighth byte. -/
theorem walk_least_below_zero :
    ∃ f, Descriptor.compile "@bHiq" = .ok f ∧ ∃ ps : List Placement, f.walk (-3) = ps.map .ok ∧
      ps.map Placement.offset = [-3, -2, 0, 8] ∧
      memberOffsets (-3) [(1, 1), (1, 2), (1, 4), (1, 8)] = [-3, -2, 0, 8] ∧
      ∀ qs, f.order.Arranges (-3) f.tokens qs → List.Forall₂ Placement.NoLater ps qs := by
  have hd : Descriptor.compile "@bHiq" = .ok ⟨.nativeAligned,
      [⟨1, .known .int8⟩, ⟨1, .known .uint16⟩, ⟨1, .known .int32⟩, ⟨1, .known .int64⟩],
      "@bHiq"⟩ := by cbv
  obtain ⟨ps, hw, -, hleast, -, -, hmembers⟩ := walk_least hd (-3)
  obtain rfl : ps = [⟨-3, 1, .int8⟩, ⟨-2, 1, .uint16⟩, ⟨0, 1, .int32⟩, ⟨8, 1, .int64⟩] :=
    List.map_injective_iff.mpr (fun _ _ h => Except.ok.inj h) (hw.symm.trans (by rfl))
  exact ⟨_, hd, _, hw, rfl, (hmembers rfl (by decide)).symm, hleast⟩

end Format

end BinaryLayout
