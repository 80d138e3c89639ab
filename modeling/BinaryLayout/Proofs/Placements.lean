import BinaryLayout.Descriptor
import BinaryLayout.Proofs.FieldCodec

/-!
# Placements of accepted descriptors

A descriptor that is accepted has known types and positive counts only. So its tokens have places
from any offset on, each behind the one before it, and the fields of the values are in order
inside the places of their tokens.
-/
namespace BinaryLayout

/-- A token with at least one element of a type of the table. -/
def Token.WellFormed (t : Token) : Prop := 0 < t.count ∧ ∃ s, t.code = .known s

def Format.WellFormed (f : Format) : Prop := ∀ t ∈ f.tokens, t.WellFormed

namespace Descriptor

lemma wellFormed_of_tokens {whole t : Text} {ts : List Token} (h : tokens whole t = .ok ts) :
    ∀ token ∈ ts, token.WellFormed := by
  fun_induction tokens whole t generalizing ts with
  | case1 hl => cases h; exact fun token ht => absurd ht List.not_mem_nil
  | case2 t hl ht => cases h
  | case3 t l hl ih =>
    simp only [bind, Except.bind, pure, Except.pure] at h
    split at h
    · cases h
    · next count _ =>
      split at h
      · cases h
      · next hcount =>
        split at h
        · cases h
        · next others ho =>
          cases h
          intro token ht
          cases ht with
          | head => exact ⟨by simp only; omega, _, rfl⟩
          | tail _ ht => exact ih ho token ht

theorem wellFormed_of_compile {d : Text} {f : Format} (h : compile d = .ok f) : f.WellFormed := by
  unfold compile at h
  simp only [bind, Except.bind, pure, Except.pure] at h
  split at h
  · cases h
  · next ts hts =>
    cases h
    exact wellFormed_of_tokens hts

end Descriptor

/-! ## Places in order -/

/-- Tokens at places one behind the other, from one offset to another. -/
inductive Chain : ℤ → List Placement → ℤ → Prop where
  | nil (offset : ℤ) : Chain offset [] offset
  | cons {start stop : ℤ} {p : Placement} {ps : List Placement} :
      start ≤ p.offset → 0 < p.count → Chain p.stop ps stop → Chain start (p :: ps) stop

namespace Placement

lemma size_pos {p : Placement} (h : 0 < p.count) : 0 < p.size :=
  Int.mul_pos h (by exact_mod_cast p.specifier.size_pos)

lemma offset_lt_stop {p : Placement} (h : 0 < p.count) : p.offset < p.stop := by
  have := size_pos h
  unfold stop
  omega

end Placement

namespace Chain

variable {start stop : ℤ} {ps : List Placement}

theorem start_le_stop (h : Chain start ps stop) : start ≤ stop := by
  induction h with
  | nil => exact le_refl _
  | cons hstart hcount _ ih =>
    have := Placement.offset_lt_stop hcount
    omega

theorem bounds (h : Chain start ps stop) {p : Placement} (hp : p ∈ ps) :
    start ≤ p.offset ∧ 0 < p.count ∧ p.stop ≤ stop := by
  induction h with
  | nil => exact absurd hp List.not_mem_nil
  | cons hstart hcount htail ih =>
    cases hp with
    | head => exact ⟨hstart, hcount, htail.start_le_stop⟩
    | tail _ hp =>
      obtain ⟨hoffset, hpos, hle⟩ := ih hp
      have := Placement.offset_lt_stop hcount
      exact ⟨by omega, hpos, hle⟩

theorem stop_getLast (h : Chain start ps stop) :
    (ps.getLast?.map Placement.stop).getD start = stop := by
  induction h with
  | nil => rfl
  | @cons _ _ p ps _ _ htail ih =>
    cases ps with
    | nil => cases htail; rfl
    | cons q qs =>
      rw [List.getLast?_cons_cons]
      rw [List.getLast?_eq_getLast_of_ne_nil (List.cons_ne_nil q qs)] at ih ⊢
      exact ih

theorem stop_le (h : Chain start ps stop) {length : ℕ} (hstart : start ≤ length)
    (hin : ∀ p ∈ ps, p.Inside length) : stop ≤ length := by
  induction h with
  | nil => exact hstart
  | cons _ _ _ ih =>
    exact ih (hin _ List.mem_cons_self).2 fun q hq => hin q (List.mem_cons_of_mem _ hq)

theorem inside (h : Chain start ps stop) {length : ℕ} (hstart : 0 ≤ start)
    (hstop : stop ≤ length) : ∀ p ∈ ps, p.Inside length := by
  intro p hp
  obtain ⟨hoffset, -, hle⟩ := h.bounds hp
  exact ⟨by omega, by omega⟩

end Chain

lemma ByteOrder.le_align (order : ByteOrder) (s : Specifier) (offset : ℤ) :
    offset ≤ order.align s offset := by
  unfold align
  split
  · have hpos : (0 : ℤ) < s.alignment := by exact_mod_cast s.alignment_pos
    have h := padCount_nonneg offset hpos
    omega
  · exact le_refl _

/-- Tokens that all have places have one for the first of them and, behind it, for the others. -/
lemma place_cons_eq_ok {order : ByteOrder} {t : Token} {rest : List Token} {offset : ℤ}
    {ps : List Placement} (h : place order offset (t :: rest) = ps.map .ok) :
    ∃ s qs, t.code.specifier = .ok s ∧ ps = ⟨order.align s offset, t.count, s⟩ :: qs ∧
      place order (Placement.stop ⟨order.align s offset, t.count, s⟩) rest = qs.map .ok := by
  rw [place] at h
  cases hs : t.code.specifier with
  | error fault =>
    simp only [hs] at h
    cases ps <;> cases h
  | ok s =>
    simp only [hs] at h
    obtain ⟨p, qs, rfl, hp, hqs⟩ := List.map_eq_cons_iff.mp h.symm
    cases hp
    exact ⟨s, qs, rfl, rfl, hqs.symm⟩

/-- Well-formed tokens have places from any offset on. -/
theorem exists_chain_place (order : ByteOrder) {tokens : List Token}
    (h : ∀ t ∈ tokens, t.WellFormed) (offset : ℤ) :
    ∃ ps stop, place order offset tokens = ps.map .ok ∧ Chain offset ps stop := by
  induction tokens generalizing offset with
  | nil => exact ⟨[], offset, rfl, .nil offset⟩
  | cons t rest ih =>
    obtain ⟨hcount, s, hs⟩ := h t List.mem_cons_self
    obtain ⟨ps, stop, hplace, hchain⟩ := ih (fun t' ht => h t' (List.mem_cons_of_mem _ ht))
      (Placement.stop ⟨order.align s offset, t.count, s⟩)
    refine ⟨⟨order.align s offset, t.count, s⟩ :: ps, stop, ?_,
      .cons (order.le_align s offset) hcount hchain⟩
    rw [place, hs]
    simp only [Code.specifier, hplace, List.map_cons]

namespace Format

variable {f : Format}

/-- The walk over a well-formed format does not stop before its end. -/
theorem WellFormed.exists_chain (h : f.WellFormed) (offset : ℤ) :
    ∃ ps stop, f.walk offset = ps.map .ok ∧ Chain offset ps stop :=
  exists_chain_place f.order h offset

lemma placements_of_walk {offset : ℤ} {ps : List Placement} (h : f.walk offset = ps.map .ok) :
    f.placements offset = .ok ps := by
  rw [placements, h, mapM_eq_ok_iff, List.forall₂_map_left_iff]
  exact List.forall₂_same.mpr fun p _ => rfl

lemma fieldsFrom_of_walk {offset : ℤ} {ps : List Placement} (h : f.walk offset = ps.map .ok) :
    f.fieldsFrom offset = .ok (fieldsOf 0 ps) := by
  rw [fieldsFrom, placements_of_walk h]
  rfl

lemma size_of_walk {ps : List Placement} {stop : ℤ} (h : f.walk 0 = ps.map .ok)
    (hc : Chain 0 ps stop) : f.size = .ok stop := by
  rw [size, placements_of_walk h, ← hc.stop_getLast]
  rfl

end Format

/-! ## Fields in order -/

/-- How many fields tokens have does not depend on their places. -/
theorem length_fieldsOf_place (order : ByteOrder) {tokens : List Token} {offset offset' : ℤ}
    {ps ps' : List Placement} (h : place order offset tokens = ps.map .ok)
    (h' : place order offset' tokens = ps'.map .ok) (k k' : ℕ) :
    (fieldsOf k ps).length = (fieldsOf k' ps').length := by
  induction tokens generalizing offset offset' ps ps' k k' with
  | nil =>
    obtain rfl : ps = [] := List.map_eq_nil_iff.mp h.symm
    obtain rfl : ps' = [] := List.map_eq_nil_iff.mp h'.symm
    rfl
  | cons t rest ih =>
    obtain ⟨s, qs, hs, rfl, hqs⟩ := place_cons_eq_ok h
    obtain ⟨s', qs', hs', rfl, hqs'⟩ := place_cons_eq_ok h'
    obtain rfl := Except.ok.inj (hs.symm.trans hs')
    have hlen : (Placement.mk (order.align s offset) t.count s).fields.length =
        (Placement.mk (order.align s offset') t.count s).fields.length := by
      unfold Placement.fields Placement.extents
      rw [List.length_map, List.length_map]
      cases s.kind <;> simp
    rw [fieldsOf_cons, fieldsOf_cons, List.length_append, List.length_append, length_numbered,
      length_numbered, hlen, ih hqs hqs']

def FieldLayout.extent (e : FieldLayout) : ℤ × ℤ := (e.offset, e.size)

def FieldLayout.Before (e e' : FieldLayout) : Prop := e.stop ≤ e'.offset

namespace Placement

variable {p : Placement}

lemma map_extent_fields (p : Placement) (k : ℕ) :
    (numbered k p.fields).map FieldLayout.extent = p.extents := by
  unfold fields
  generalize p.extents = extents
  induction extents generalizing k with
  | nil => rfl
  | cons x extents ih =>
    rw [List.map_cons, numbered_cons, List.map_cons, ih]
    rfl

lemma extent_mem_extents {k : ℕ} {e : FieldLayout} (h : e ∈ numbered k p.fields) :
    e.extent ∈ p.extents := by
  rw [← p.map_extent_fields k]
  exact List.mem_map_of_mem h

lemma specifier_of_mem_fields {k : ℕ} {e : FieldLayout} (h : e ∈ numbered k p.fields) :
    e.specifier = p.specifier := by
  unfold fields at h
  generalize p.extents = extents at h
  induction extents generalizing k with
  | nil => exact absurd h List.not_mem_nil
  | cons x extents ih =>
    rw [List.map_cons, numbered_cons] at h
    cases h with
    | head => rfl
    | tail _ h => exact ih h

/-- What a value takes of its token. -/
lemma extent_bounds (hc : 0 < p.count) {x : ℤ × ℤ} (hx : x ∈ p.extents) :
    p.specifier.kind ≠ .pad ∧ 0 < x.2 ∧ (p.specifier.kind ≠ .string → x.2 = p.specifier.size) ∧
      p.offset ≤ x.1 ∧ x.1 + x.2 ≤ p.stop := by
  unfold extents at hx
  have hpos : (0 : ℤ) < p.specifier.size := by exact_mod_cast p.specifier.size_pos
  cases hk : p.specifier.kind with
  | pad => rw [hk] at hx; exact absurd hx List.not_mem_nil
  | string =>
    have h1 : p.specifier.size = 1 := by
      rw [Specifier.eq_string hk]
      rfl
    simp only [hk, List.mem_singleton] at hx
    subst hx
    refine ⟨nofun, hc, fun h => absurd rfl h, le_refl _, ?_⟩
    simp only [stop, size, h1]
    omega
  | char | int | real =>
    simp only [hk, List.mem_map, List.mem_range] at hx
    obtain ⟨i, hi, rfl⟩ := hx
    have hle : ((i : ℤ) + 1) * p.specifier.size ≤ p.count * p.specifier.size :=
      Int.mul_le_mul_of_nonneg_right (by omega) hpos.le
    have h0 : 0 ≤ (i : ℤ) * p.specifier.size := by positivity
    refine ⟨nofun, hpos, fun _ => rfl, ?_, ?_⟩ <;> simp only [elementOffset, stop, size]
    · omega
    · rw [Int.add_mul] at hle
      omega

lemma pairwise_extents (p : Placement) :
    p.extents.Pairwise fun x y => x.1 + x.2 ≤ y.1 := by
  unfold extents
  cases p.specifier.kind with
  | pad => exact List.Pairwise.nil
  | string => exact List.pairwise_singleton _ _
  | char | int | real =>
    rw [List.pairwise_map]
    refine List.Pairwise.imp ?_ List.pairwise_lt_range
    intro i j hij
    have hle : ((i : ℤ) + 1) * p.specifier.size ≤ (j : ℤ) * p.specifier.size :=
      Int.mul_le_mul_of_nonneg_right (by omega) (by omega)
    rw [Int.add_mul] at hle
    simp only [elementOffset]
    omega

/-- A field of a token has the shape of its type and lies inside its place. -/
theorem field_bounds (hc : 0 < p.count) {k : ℕ} {e : FieldLayout} (he : e ∈ numbered k p.fields) :
    e.Shaped ∧ p.offset ≤ e.offset ∧ e.stop ≤ p.stop := by
  obtain ⟨hpad, hpos, hwidth, hoffset, hstop⟩ := extent_bounds hc (extent_mem_extents he)
  rw [← specifier_of_mem_fields he] at hpad hwidth
  exact ⟨⟨hpad, hpos, hwidth⟩, hoffset, hstop⟩

lemma pairwise_fields (p : Placement) (k : ℕ) :
    (numbered k p.fields).Pairwise FieldLayout.Before := by
  have h := p.pairwise_extents
  rw [← p.map_extent_fields k, List.pairwise_map] at h
  exact h

end Placement

namespace Chain

variable {start stop : ℤ} {ps : List Placement}

lemma exists_of_mem_fieldsOf {k : ℕ} {e : FieldLayout} (he : e ∈ fieldsOf k ps) :
    ∃ p ∈ ps, ∃ j, e ∈ numbered j p.fields := by
  induction ps generalizing k with
  | nil => exact absurd he List.not_mem_nil
  | cons p ps ih =>
    rw [fieldsOf_cons, List.mem_append] at he
    rcases he with he | he
    · exact ⟨p, List.mem_cons_self, k, he⟩
    · obtain ⟨q, hq, hj⟩ := ih he
      exact ⟨q, List.mem_cons_of_mem _ hq, hj⟩

/-- The fields have the shapes of their types and lie where the tokens are. -/
theorem field_bounds (h : Chain start ps stop) {k : ℕ} {e : FieldLayout}
    (he : e ∈ fieldsOf k ps) : e.Shaped ∧ start ≤ e.offset ∧ e.stop ≤ stop := by
  obtain ⟨p, hp, j, hj⟩ := exists_of_mem_fieldsOf he
  obtain ⟨hoffset, hcount, hstop⟩ := h.bounds hp
  obtain ⟨hshape, hlow, hhigh⟩ := p.field_bounds hcount hj
  exact ⟨hshape, by omega, by omega⟩

/-- Each field ends before the next one starts. -/
theorem pairwise_fieldsOf (h : Chain start ps stop) (k : ℕ) :
    (fieldsOf k ps).Pairwise FieldLayout.Before := by
  induction h generalizing k with
  | nil => exact List.Pairwise.nil
  | cons _ hcount htail ih =>
    rw [fieldsOf_cons, List.pairwise_append]
    refine ⟨Placement.pairwise_fields _ k, ih _, ?_⟩
    intro e he e' he'
    have h1 := (Placement.field_bounds hcount he).2.2
    have h2 := (htail.field_bounds he').2.1
    exact h1.trans h2

/-- No field reaches into padding. -/
theorem before_or_behind_pad (h : Chain start ps stop) {k : ℕ} {e : FieldLayout}
    (he : e ∈ fieldsOf k ps) {p : Placement} (hp : p ∈ ps) (hpad : p.specifier.kind = .pad) :
    e.stop ≤ p.offset ∨ p.stop ≤ e.offset := by
  induction h generalizing k with
  | nil => exact absurd hp List.not_mem_nil
  | @cons _ _ q qs _ hcount htail ih =>
    rw [fieldsOf_cons, List.mem_append] at he
    rcases List.mem_cons.mp hp with rfl | hp
    · rcases he with he | he
      · obtain ⟨hshape, -⟩ := p.field_bounds hcount he
        exact absurd (Placement.specifier_of_mem_fields he ▸ hpad) hshape.carries
      · exact .inr (htail.field_bounds he).2.1
    · rcases he with he | he
      · have hstop := (q.field_bounds hcount he).2.2
        exact .inl (hstop.trans (htail.bounds hp).1)
      · exact ih he hp

theorem field_inside (h : Chain start ps stop) {length : ℕ} (hin : ∀ p ∈ ps, p.Inside length)
    {k : ℕ} {e : FieldLayout} (he : e ∈ fieldsOf k ps) : 0 ≤ e.offset ∧ e.stop ≤ length := by
  obtain ⟨p, hp, j, hj⟩ := exists_of_mem_fieldsOf he
  obtain ⟨-, hlow, hhigh⟩ := p.field_bounds (h.bounds hp).2.1 hj
  obtain ⟨h0, hl⟩ := hin p hp
  exact ⟨by omega, by omega⟩

end Chain

end BinaryLayout
