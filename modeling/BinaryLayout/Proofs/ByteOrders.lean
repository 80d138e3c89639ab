import BinaryLayout.Proofs.LayoutAgreement

/-!
# One record under two byte orders

A byte order decides which end of a number comes first and where the fields are, and nothing else.
So the fields of a record correspond under any two byte orders: a value that has bytes under one has
bytes under the other, the same ones, or the same ones turned round in a field of a number. Orders
that agree on both points cannot be told apart by any operation, not even by its errors.
-/
namespace BinaryLayout

/-- The tokens of a format in another byte order. -/
def Format.withOrder (f : Format) (order : ByteOrder) : Format := { f with order := order }

/-! ## The bytes of one value -/

namespace Specifier

/-- The bytes are the digits of a number. -/
def Numeric (s : Specifier) : Prop := s.kind = .int ∨ s.kind = .real

instance (s : Specifier) : Decidable s.Numeric := inferInstanceAs (Decidable (_ ∨ _))

/-- The bytes of an element under one byte order as they are under another one. -/
def turned (s : Specifier) (order order' : ByteOrder) (raw : Bytes) : Bytes :=
  if s.Numeric then order'.endian.arrange (order.endian.arrange raw) else raw

@[simp] lemma length_turned (s : Specifier) (order order' : ByteOrder) (raw : Bytes) :
    (s.turned order order' raw).length = raw.length := by
  unfold turned
  split
  · rw [Endian.length_arrange, Endian.length_arrange]
  · rfl

lemma turned_of_numeric {s : Specifier} (h : s.Numeric) (order order' : ByteOrder) (raw : Bytes) :
    s.turned order order' raw = order'.endian.arrange (order.endian.arrange raw) := if_pos h

lemma turned_of_not_numeric {s : Specifier} (h : ¬s.Numeric) (order order' : ByteOrder)
    (raw : Bytes) : s.turned order order' raw = raw := if_neg h

lemma turned_little_big (s : Specifier) (raw : Bytes) :
    s.turned .littleEndian .bigEndian raw = if s.Numeric then raw.reverse else raw := rfl

lemma turned_native (s : Specifier) (raw : Bytes) :
    s.turned .native .nativeAligned raw = raw := by
  unfold turned
  split <;> rfl

end Specifier

lemma Word.encode_turned (e e' : Endian) (width : ℕ) (n : ℤ) :
    encode e' width n = e'.arrange (e.arrange (encode e width n)) := by
  rw [encode, encode, Endian.arrange_arrange]

namespace Field

lemma encodeInteger_turned {s : Specifier} {e : Endian} {v : Value} {raw : Bytes}
    (h : encodeInteger s e v = .ok raw) (e' : Endian) :
    encodeInteger s e' v = .ok (e'.arrange (e.arrange raw)) := by
  unfold encodeInteger at h ⊢
  split at h
  · cases h
  · next n hn =>
    split at h
    · next hfits =>
      cases h
      simp only [if_pos hfits, ← Word.encode_turned]
    · cases h

lemma encodeReal_turned {s : Specifier} {e : Endian} {v : Value} {raw : Bytes}
    (h : encodeReal s e v = .ok raw) (e' : Endian) :
    encodeReal s e' v = .ok (e'.arrange (e.arrange raw)) := by
  unfold encodeReal encodeSingle at h ⊢
  split at h
  · cases h
  · next x hx =>
    split at h
    · next hsingle =>
      split at h
      · cases h
        simp only [if_pos hsingle, ← Word.encode_turned]
      · cases h
    · next hdouble =>
      cases h
      simp only [if_neg hdouble, ← Word.encode_turned]

theorem encode_turned {s : Specifier} {v : Value} {order : ByteOrder} {raw : Bytes}
    (h : encode s v order = .ok raw) (order' : ByteOrder) :
    encode s v order' = .ok (s.turned order order' raw) := by
  cases hs : s.kind with
  | pad | string => simp only [encode, hs, reduceCtorEq] at h
  | char =>
    have hnone : ¬s.Numeric := by simp [Specifier.Numeric, hs]
    rw [Specifier.turned_of_not_numeric hnone, ← h]
    simp only [encode, hs]
  | int =>
    simp only [encode, hs] at h
    have hturned := encodeInteger_turned (reportPacking_eq_ok h) order'.endian
    rw [Specifier.turned_of_numeric (.inl hs)]
    simp only [encode, hs, hturned, reportPacking]
  | real =>
    simp only [encode, hs] at h
    have hturned := encodeReal_turned (reportPacking_eq_ok h) order'.endian
    rw [Specifier.turned_of_numeric (.inr hs)]
    simp only [encode, hs, hturned, reportPacking]

/-- Bytes have the same value under one byte order as turned under another one. -/
theorem decode_turned {s : Specifier} {raw : Bytes} (hl : raw.length = s.size)
    (order order' : ByteOrder) :
    decode s (.ofBytes (s.turned order order' raw)) order' = decode s (.ofBytes raw) order := by
  have hlength := (Specifier.length_turned s order order' raw).trans hl
  cases hs : s.kind with
  | pad | string => simp only [decode, hs]
  | char =>
    have hnone : ¬s.Numeric := by simp [Specifier.Numeric, hs]
    rw [Specifier.turned_of_not_numeric hnone]
    simp only [decode, hs]
  | int =>
    simp only [decode, hs, Buffer.ofBytes, Buffer.whole, hlength, hl, if_true, decodeInteger,
      Word.decode]
    rw [Specifier.turned_of_numeric (.inl hs), Endian.arrange_arrange]
  | real =>
    simp only [decode, hs, Buffer.ofBytes, Buffer.whole, hlength, hl, if_true, decodeReal]
    rw [Specifier.turned_of_numeric (.inr hs), Endian.arrange_arrange]

end Field

/-! ## Fields that correspond -/

namespace FieldLayout

/-- The field of the same value, maybe somewhere else. -/
structure Alike (e e' : FieldLayout) : Prop where
  size : e'.size = e.size
  specifier : e'.specifier = e.specifier
  index : e'.index = e.index

variable {e e' : FieldLayout}

lemma Alike.symm (h : e.Alike e') : e'.Alike e :=
  ⟨h.size.symm, h.specifier.symm, h.index.symm⟩

lemma encode_turned (h : e.Alike e') {order : ByteOrder} {v : Value} {raw : Bytes}
    (hraw : e.encode order v = .ok raw) (order' : ByteOrder) :
    e'.encode order' v = .ok (e.specifier.turned order order' raw) := by
  by_cases hs : e.specifier.kind = .string
  · have hnone : ¬e.specifier.Numeric := by simp [Specifier.Numeric, hs]
    rw [Specifier.turned_of_not_numeric hnone]
    unfold encode at hraw ⊢
    rw [h.specifier, h.size]
    simpa only [hs] using hraw
  · rw [encode_of_ne_string hs] at hraw
    rw [encode_of_ne_string (h.specifier ▸ hs), h.specifier]
    exact Field.encode_turned hraw order'

lemma read_turned (hshape : e.Shaped) {raw : Bytes} (hl : (raw.length : ℤ) = e.size)
    (order order' : ByteOrder) :
    e.read order' (e.specifier.turned order order' raw) = e.read order raw := by
  by_cases hs : e.specifier.kind = .string
  · have hnone : ¬e.specifier.Numeric := by simp [Specifier.Numeric, hs]
    rw [Specifier.turned_of_not_numeric hnone]
    simp only [read, hs]
  · have hwidth : raw.length = e.specifier.size := by
      have := hshape.width hs
      omega
    rw [read_of_ne_string hs, read_of_ne_string hs, Field.decode_turned hwidth]

end FieldLayout

lemma numbered_alike (k : ℕ) (s : Specifier) {extents extents' : List (ℤ × ℤ)}
    (h : List.Forall₂ (fun x y => y.2 = x.2) extents extents') :
    List.Forall₂ FieldLayout.Alike (numbered k (extents.map fun x => FieldLayout.mk x.1 x.2 s))
      (numbered k (extents'.map fun x => FieldLayout.mk x.1 x.2 s)) := by
  induction h generalizing k with
  | nil => exact .nil
  | cons hsize _ ih => exact .cons ⟨hsize, rfl, rfl⟩ (ih (k + 1))

lemma Placement.fields_alike (k : ℕ) (offset offset' count : ℤ) (s : Specifier) :
    List.Forall₂ FieldLayout.Alike (numbered k (Placement.mk offset count s).fields)
      (numbered k (Placement.mk offset' count s).fields) := by
  apply numbered_alike
  unfold extents
  cases s.kind with
  | pad => exact .nil
  | string => exact .cons rfl .nil
  | char | int | real =>
    rw [List.forall₂_map_left_iff, List.forall₂_map_right_iff]
    exact List.forall₂_same.mpr fun i _ => rfl

/-- The fields of tokens under two byte orders correspond. -/
theorem fieldsOf_alike {order order' : ByteOrder} {tokens : List Token} {offset offset' : ℤ}
    {ps ps' : List Placement} (h : place order offset tokens = ps.map .ok)
    (h' : place order' offset' tokens = ps'.map .ok) (k : ℕ) :
    List.Forall₂ FieldLayout.Alike (fieldsOf k ps) (fieldsOf k ps') := by
  induction tokens generalizing offset offset' ps ps' k with
  | nil =>
    obtain rfl : ps = [] := List.map_eq_nil_iff.mp h.symm
    obtain rfl : ps' = [] := List.map_eq_nil_iff.mp h'.symm
    exact .nil
  | cons t rest ih =>
    obtain ⟨s, qs, hs, rfl, hqs⟩ := place_cons_eq_ok h
    obtain ⟨s', qs', hs', rfl, hqs'⟩ := place_cons_eq_ok h'
    obtain rfl := Except.ok.inj (hs.symm.trans hs')
    have hfirst := Placement.fields_alike k (order.align s offset) (order'.align s offset')
      t.count s
    have hlength := hfirst.length_eq
    rw [length_numbered, length_numbered] at hlength
    rw [fieldsOf_cons, fieldsOf_cons, hlength]
    exact List.rel_append hfirst (ih hqs hqs' _)

/-- An order that does not align puts no token behind the place that another order puts it at. -/
lemma stop_le_of_place {order order' : ByteOrder} (hp : order.aligned = false)
    {tokens : List Token} {offset offset' stop stop' : ℤ} {ps ps' : List Placement}
    (h : place order offset tokens = ps.map .ok) (h' : place order' offset' tokens = ps'.map .ok)
    (hc : Chain offset ps stop) (hc' : Chain offset' ps' stop') (hle : offset ≤ offset') :
    stop ≤ stop' := by
  induction tokens generalizing offset offset' ps ps' with
  | nil =>
    obtain rfl : ps = [] := List.map_eq_nil_iff.mp h.symm
    obtain rfl : ps' = [] := List.map_eq_nil_iff.mp h'.symm
    cases hc
    cases hc'
    exact hle
  | cons t rest ih =>
    obtain ⟨s, qs, hs, rfl, hqs⟩ := place_cons_eq_ok h
    obtain ⟨s', qs', hs', rfl, hqs'⟩ := place_cons_eq_ok h'
    obtain rfl := Except.ok.inj (hs.symm.trans hs')
    have hpacked : order.align s offset = offset := by simp [ByteOrder.align, hp]
    have halign := order'.le_align s offset'
    cases hc with
    | cons _ _ hc =>
      cases hc' with
      | cons _ _ hc' =>
        refine ih hqs hqs' hc hc' ?_
        simp only [Placement.stop, Placement.size, hpacked]
        omega

/-! ## Packing under two byte orders -/

lemma fitting_of_alike {order order' : ByteOrder} {fields fields' : List FieldLayout}
    (ha : List.Forall₂ FieldLayout.Alike fields fields') {values : List Value}
    (h : Fitting order fields values) : Fitting order' fields' values := by
  intro i e' v he' hv
  obtain ⟨hi', rfl⟩ := List.getElem?_eq_some_iff.mp he'
  have hi : i < fields.length := ha.length_eq ▸ hi'
  obtain ⟨raw, hraw⟩ := h i fields[i] v (List.getElem?_eq_getElem hi) hv
  exact ⟨_, FieldLayout.encode_turned ((List.forall₂_iff_get.mp ha).2 i hi hi') hraw order'⟩

theorem packable_alike {order order' : ByteOrder} {fields fields' : List FieldLayout}
    (ha : List.Forall₂ FieldLayout.Alike fields fields') {values : List Value} :
    Format.Packable order fields values ↔ Format.Packable order' fields' values := by
  have hback : List.Forall₂ FieldLayout.Alike fields' fields :=
    List.Forall₂.flip (ha.imp fun _ _ h => h.symm)
  unfold Format.Packable
  rw [ha.length_eq]
  exact and_congr Iff.rfl ⟨fitting_of_alike ha, fitting_of_alike hback⟩

/-- Fields that correspond are filled with the same bytes, turned. -/
theorem Filled.bytes_alike {order order' : ByteOrder} {fields fields' : List FieldLayout}
    {values : List Value} {data data' : Bytes} (h : Filled order fields values data)
    (h' : Filled order' fields' values data')
    (ha : List.Forall₂ FieldLayout.Alike fields fields') :
    List.Forall₂ (fun e e' => FieldLayout.bytes data' e' =
      e.specifier.turned order order' (FieldLayout.bytes data e)) fields fields' := by
  refine List.forall₂_iff_get.mpr ⟨ha.length_eq, fun i hi hi' => ?_⟩
  have hfield : fields[i].Alike fields'[i] := (List.forall₂_iff_get.mp ha).2 i hi hi'
  obtain ⟨v, raw, hv, hraw, hwidth, hbytes⟩ := h.field i _ (List.getElem?_eq_getElem hi)
  obtain ⟨v', raw', hv', hraw', -, hbytes'⟩ := h'.field i _ (List.getElem?_eq_getElem hi')
  obtain rfl := Option.some.inj (hv.symm.trans hv')
  obtain rfl := Except.ok.inj ((FieldLayout.encode_turned hfield hraw order').symm.trans hraw')
  have hsize : fields'[i].size = fields[i].size := hfield.size
  change FieldLayout.bytes data' fields'[i] =
    fields[i].specifier.turned order order' (FieldLayout.bytes data fields[i])
  rw [FieldLayout.bytes, FieldLayout.stop, hbytes', FieldLayout.bytes, FieldLayout.stop, hbytes,
    Specifier.length_turned, hsize]
  by_cases hnumeric : fields[i].specifier.Numeric
  · -- A number fills its field, so that there is nothing behind it.
    have hstring : fields[i].specifier ≠ .string := by
      intro hs
      rw [hs] at hnumeric
      exact absurd hnumeric (by decide)
    have hfull : fields[i].size.toNat - raw.length = 0 := by
      have := hwidth hstring
      omega
    rw [hfull, Bytes.zeros, List.replicate_zero, List.append_nil, List.append_nil]
  · rw [Specifier.turned_of_not_numeric hnumeric, Specifier.turned_of_not_numeric hnumeric]

/-! ## Numbers reversed -/

namespace Bytes

/-- The bytes of a field in reverse, if it is one of a number and ends inside the data. -/
def reverseField (data : Bytes) (e : FieldLayout) : Bytes :=
  if e.specifier.Numeric ∧ e.stop ≤ data.length then
    data.splice e.offset.toNat (e.bytes data).reverse
  else data

def mirror (fields : List FieldLayout) (data : Bytes) : Bytes := fields.foldl reverseField data

variable {e : FieldLayout} {data : Bytes}

lemma reverseField_eq (h : e.specifier.Numeric) (hstop : e.stop ≤ data.length) :
    data.reverseField e = data.splice e.offset.toNat (e.bytes data).reverse :=
  if_pos ⟨h, hstop⟩

lemma within_reverse (hs : e.Shaped) (h0 : 0 ≤ e.offset) (hstop : e.stop ≤ data.length) :
    Write.Within ⟨e.offset.toNat, (e.bytes data).reverse⟩ e := by
  refine ⟨rfl, ?_⟩
  rw [List.length_reverse, FieldLayout.length_bytes h0 hs.positive hstop]

@[simp] lemma length_reverseField (hs : e.Shaped) (h0 : 0 ≤ e.offset) :
    (data.reverseField e).length = data.length := by
  by_cases h : e.specifier.Numeric ∧ e.stop ≤ data.length
  · rw [reverseField_eq h.1 h.2]
    exact length_splice_inside ((within_reverse hs h0 h.2).inside h0 h.2)
  · rw [reverseField, if_neg h]

lemma getElem?_reverseField (hs : e.Shaped) (h0 : 0 ≤ e.offset) {i : ℕ} (hi : ¬e.Covers i) :
    (data.reverseField e)[i]? = data[i]? := by
  by_cases h : e.specifier.Numeric ∧ e.stop ≤ data.length
  · have hwithin := within_reverse hs h0 h.2
    rw [reverseField_eq h.1 h.2, getElem?_splice (hwithin.inside h0 h.2),
      if_neg fun hc => hi (hwithin.covers h0 hc)]
  · rw [reverseField, if_neg h]

lemma bytes_reverseField (hs : e.Shaped) (h0 : 0 ≤ e.offset) (hstop : e.stop ≤ data.length) :
    e.bytes (data.reverseField e) =
      e.specifier.turned .littleEndian .bigEndian (e.bytes data) := by
  rw [Specifier.turned_little_big]
  split
  · next h =>
    have hlength := FieldLayout.length_bytes h0 hs.positive hstop
    rw [reverseField_eq h hstop, FieldLayout.bytes_splice h0 hs.positive hstop
      (by rw [List.length_reverse, hlength]), List.length_reverse, List.drop_length,
      List.append_nil]
  · next h => rw [reverseField, if_neg fun hc => h hc.1]

end Bytes

/-- Data whose fields have the same bytes, those of numbers in reverse. -/
structure Mirrored (fields : List FieldLayout) (data other : Bytes) : Prop where
  length : other.length = data.length
  field : ∀ e ∈ fields, e.stop ≤ data.length →
    FieldLayout.bytes other e =
      e.specifier.turned .littleEndian .bigEndian (FieldLayout.bytes data e)
  elsewhere : ∀ i : ℕ, (∀ e ∈ fields, ¬e.Covers i) → other[i]? = data[i]?

/-- Ordered fields are reversed one by one, each once. -/
theorem mirrored_mirror {fields : List FieldLayout} (hs : ∀ e ∈ fields, e.Shaped ∧ 0 ≤ e.offset)
    (hp : fields.Pairwise FieldLayout.Before) (data : Bytes) :
    Mirrored fields data (data.mirror fields) := by
  induction fields generalizing data with
  | nil => exact ⟨rfl, fun e he => absurd he List.not_mem_nil, fun i _ => rfl⟩
  | cons e fields ih =>
    obtain ⟨hshape, h0⟩ := hs e List.mem_cons_self
    obtain ⟨hbefore, hp⟩ := List.pairwise_cons.mp hp
    have hlength : (data.reverseField e).length = data.length :=
      Bytes.length_reverseField hshape h0
    have hrest : Mirrored fields (data.reverseField e) (data.mirror (e :: fields)) :=
      ih (fun e' he' => hs e' (List.mem_cons_of_mem _ he')) hp (data.reverseField e)
    refine ⟨hrest.length.trans hlength, fun e' he' hstop => ?_, fun i hi => ?_⟩
    · cases he' with
      | head =>
        -- The fields behind this one have no byte in common with it.
        rw [← Bytes.bytes_reverseField hshape h0 hstop]
        exact FieldLayout.bytes_congr h0 hshape.positive (hlength.symm ▸ hstop) hrest.length
          fun i hi => hrest.elsewhere i fun e' he' => (hbefore e' he').not_covers hi
      | tail _ he' =>
        obtain ⟨hshape', h0'⟩ := hs e' (List.mem_cons_of_mem _ he')
        rw [hrest.field e' he' (hlength.symm ▸ hstop)]
        congr 1
        exact FieldLayout.bytes_congr h0' hshape'.positive hstop hlength fun i hi =>
          Bytes.getElem?_reverseField hshape h0 fun hi' => (hbefore e' he').not_covers hi' hi
    · rw [hrest.elsewhere i fun e' he' => hi e' (List.mem_cons_of_mem _ he'),
        Bytes.getElem?_reverseField hshape h0 (hi e List.mem_cons_self)]

/-- Data is decided by the bytes of its fields and those outside of them. -/
lemma eq_of_bytes (fields : List FieldLayout) {data other : Bytes}
    (hl : other.length = data.length)
    (hs : ∀ e ∈ fields, 0 ≤ e.offset ∧ 0 < e.size ∧ e.stop ≤ data.length)
    (hfield : ∀ e ∈ fields, FieldLayout.bytes other e = FieldLayout.bytes data e)
    (helsewhere : ∀ i : ℕ, (∀ e ∈ fields, ¬e.Covers i) → other[i]? = data[i]?) : other = data := by
  apply List.ext_getElem?
  intro i
  by_cases hi : ∃ e ∈ fields, e.Covers i
  · obtain ⟨e, he, hcovers⟩ := hi
    obtain ⟨h0, hpos, hstop⟩ := hs e he
    rw [← FieldLayout.getElem?_bytes h0 hpos (hl.symm ▸ hstop) hcovers, hfield e he,
      FieldLayout.getElem?_bytes h0 hpos hstop hcovers]
  · exact helsewhere i fun e he hcovers => hi ⟨e, he, hcovers⟩

/-- Data that is filled with the same values in either order is the other one mirrored. -/
theorem Filled.eq_mirror {fields : List FieldLayout} {values : List Value} {data other : Bytes}
    (h : Filled .littleEndian fields values data) (h' : Filled .bigEndian fields values other)
    (hl : other.length = data.length)
    (hs : ∀ e ∈ fields, e.Shaped ∧ 0 ≤ e.offset ∧ e.stop ≤ data.length)
    (hp : fields.Pairwise FieldLayout.Before) : other = data.mirror fields := by
  have hm := mirrored_mirror (fun e he => ⟨(hs e he).1, (hs e he).2.1⟩) hp data
  have hturned := List.forall₂_same.mp (h.bytes_alike h' (List.forall₂_same.mpr fun e _ =>
    ⟨rfl, rfl, rfl⟩))
  refine eq_of_bytes fields (hl.trans hm.length.symm) (fun e he => ?_) (fun e he => ?_)
    fun i hi => ?_
  · obtain ⟨hshape, h0, hstop⟩ := hs e he
    exact ⟨h0, hshape.positive, hm.length.symm ▸ hstop⟩
  · rw [hturned e he, hm.field e he (hs e he).2.2]
  · rw [hm.elsewhere i hi]
    by_cases hlt : i < data.length
    · rw [h'.elsewhere i (hl.symm ▸ hlt) hi, h.elsewhere i hlt hi]
    · rw [List.getElem?_eq_none (by omega), List.getElem?_eq_none (by omega)]

/-- A token has the same values, or is refused in the same way, in mirrored data. -/
lemma Placement.values_mirrored {p : Placement} (hc : 0 < p.count) {fields : List FieldLayout}
    {k : ℕ} (hsub : ∀ e ∈ numbered k p.fields, e ∈ fields) {data other : Bytes}
    (h : Mirrored fields data other) :
    p.values .bigEndian other = p.values .littleEndian data := by
  rw [p.values_eq _ _ k, p.values_eq _ _ k, h.length]
  unfold check
  by_cases hin : p.Inside data.length
  swap
  · rw [if_neg hin]
    rfl
  rw [if_pos hin]
  refine mapM_congr fun e he => ?_
  obtain ⟨hshape, hlow, hhigh⟩ := p.field_bounds hc he
  have hstop : e.stop ≤ data.length := hhigh.trans hin.2
  rw [FieldLayout.decode, h.field e (hsub e he) hstop, FieldLayout.read_turned hshape
    (FieldLayout.length_bytes (hin.1.trans hlow) hshape.positive hstop), ← FieldLayout.decode]

lemma exists_numbered_subset {ps : List Placement} {p : Placement} (hp : p ∈ ps) (j : ℕ) :
    ∃ k, ∀ e ∈ numbered k p.fields, e ∈ fieldsOf j ps := by
  induction ps generalizing j with
  | nil => exact absurd hp List.not_mem_nil
  | cons q ps ih =>
    rw [fieldsOf_cons]
    cases hp with
    | head => exact ⟨j, fun e he => List.mem_append_left _ he⟩
    | tail _ hp =>
      obtain ⟨k, hk⟩ := ih hp (j + q.fields.length)
      exact ⟨k, fun e he => List.mem_append_right _ (hk e he)⟩

/-! ## Orders that agree -/

lemma place_congr {order order' : ByteOrder} (h : order'.aligned = order.aligned) (offset : ℤ)
    (tokens : List Token) : place order' offset tokens = place order offset tokens := by
  have halign : ∀ s o, order'.align s o = order.align s o := fun s o => by
    rw [ByteOrder.align, h, ByteOrder.align]
  induction tokens generalizing offset with
  | nil => rfl
  | cons t rest ih => simp only [place, halign, ih]

section Congruence

variable {order order' : ByteOrder} (h : order'.endian = order.endian)
include h

lemma Field.encode_congr (s : Specifier) (v : Value) : encode s v order' = encode s v order := by
  unfold encode
  rw [h]

lemma Field.decode_congr (s : Specifier) (b : Buffer) : decode s b order' = decode s b order := by
  unfold decode
  rw [h]

lemma planElements_congr (s : Specifier) (given offset count : ℕ) (values : List Value) :
    planElements order' s given offset count values =
      planElements order s given offset count values := by
  induction count generalizing offset values with
  | zero => rfl
  | succ count ih => simp only [planElements, Field.encode_congr h, ih]

lemma planWalk_congr (length given : ℕ) (steps : List (Except Fault Placement))
    (values : List Value) :
    planWalk order' length given steps values = planWalk order length given steps values := by
  have hplan : ∀ p values, Placement.plan p order' length given values =
      Placement.plan p order length given values := fun p values => by
    simp only [Placement.plan, planElements_congr h]
  induction steps generalizing values with
  | nil => rfl
  | cons step steps ih => simp only [planWalk, hplan, ih]

lemma Placement.values_congr (p : Placement) (data : Bytes) :
    p.values order' data = p.values order data := by
  simp only [values, Field.decode_congr h]

end Congruence

namespace Format

/-- Two formats that no operation on records tells apart. -/
structure Interchangeable [Host] (f g : Format) : Prop where
  layout : g.layout = f.layout
  size : g.size = f.size
  pack : ∀ values, g.pack values = f.pack values
  packInto : ∀ b offset values, g.packInto b offset values = f.packInto b offset values
  unpack : ∀ data, g.unpack data = f.unpack data
  unpackFrom : ∀ data offset, g.unpackFrom data offset = f.unpackFrom data offset

/-- A byte order that aligns as another one does and has the same end first is the same to every
operation, whatever the tokens are. -/
theorem interchangeable_withOrder [Host] (f : Format) {order order' : ByteOrder}
    (ha : order'.aligned = order.aligned) (he : order'.endian = order.endian) :
    Interchangeable (f.withOrder order) (f.withOrder order') := by
  have hwalk : ∀ offset, (f.withOrder order').walk offset = (f.withOrder order).walk offset :=
    fun offset => place_congr ha offset f.tokens
  have hplacements : ∀ offset,
      (f.withOrder order').placements offset = (f.withOrder order).placements offset :=
    fun offset => by rw [placements, hwalk, placements]
  have hsize : (f.withOrder order').size = (f.withOrder order).size := by
    rw [size, hplacements, size]
  have hplan : ∀ length offset values, (f.withOrder order').plan length offset values =
      (f.withOrder order).plan length offset values := fun length offset values => by
    rw [plan, hwalk, plan]
    exact planWalk_congr he length values.length _ values
  have hunpack : ∀ data offset, (f.withOrder order').unpackFrom data offset =
      (f.withOrder order).unpackFrom data offset := fun data offset => by
    rw [unpackFrom, hwalk, unpackFrom]
    congr 2
    funext step
    exact congrArg step.bind (funext fun p => p.values_congr he data)
  refine ⟨by rw [layout, hplacements, layout], hsize, fun values => ?_, fun b offset values => ?_,
    fun data => hunpack data 0, hunpack⟩
  · simp only [pack, hsize, hplan]
  · simp only [packInto, hplan]

/-! ## Byte orders -/

/-- Two formats with the same fields, where one writes the numbers of the other in reverse. -/
structure Reversed [Host] (f g : Format) (fields : List FieldLayout) : Prop where
  layouts : f.layout = .ok fields ∧ g.layout = .ok fields
  packs_iff : ∀ values, (∃ r, f.pack values = .ok r) ↔ ∃ s, g.pack values = .ok s
  packed : ∀ values r s, f.pack values = .ok r → g.pack values = .ok s →
    s = { r with data := r.data.mirror fields }
  unpacked : ∀ data, f.unpack data = g.unpack (data.mirror fields)

/-- Two formats with the same values, where one has the fields of the other at places of its own,
and zeros in between. A machine that can keep the longer records packs the same values by both, and
on any other nothing but the want of room makes a difference. -/
structure Spread [Host] (f g : Format) (fields fields' : List FieldLayout) (size : ℤ) : Prop where
  layouts : f.layout = .ok fields ∧ g.layout = .ok fields'
  total : g.size = .ok size
  regions : Regions g.order size fields'
  alike : List.Forall₂ FieldLayout.Alike fields fields'
  packs_iff : ∀ values, size ≤ Host.storage →
    ((∃ s, g.pack values = .ok s) ↔ ∃ r, f.pack values = .ok r)
  shorter : ∀ values s, g.pack values = .ok s → ∃ r, f.pack values = .ok r
  longer : ∀ values r, f.pack values = .ok r →
    (∃ s, g.pack values = .ok s) ∨ ∃ fault, g.pack values = .error fault ∧ NoRoom fault
  packed : ∀ values r s, f.pack values = .ok r → g.pack values = .ok s →
    s.surplus = r.surplus ∧ s.fields = r.fields ∧ s.data.length = size ∧
      List.Forall₂ (fun e e' => FieldLayout.bytes s.data e' = FieldLayout.bytes r.data e) fields
        fields' ∧
      ∀ i < s.data.length, (∀ e ∈ fields', ¬e.Covers i) → s.data[i]? = some 0

variable {f : Format} {stop : ℤ} {ps : List Placement}

/-- A record takes a value for each field, and leaves the others. -/
lemma counts_of_pack [Host] (hw : f.walk 0 = ps.map .ok) (hc : Chain 0 ps stop)
    {values : List Value} {r : PackedRecord} (h : f.pack values = .ok r) :
    r.surplus = values.length - (fieldsOf 0 ps).length ∧ r.fields = (fieldsOf 0 ps).length := by
  have hends := packEnds hw hc values
  rw [h] at hends
  cases hends with
  | packed _ hplan =>
    obtain ⟨hwrites, hrest⟩ := planFields_lengths ((plan_eq_ok_iff hw).mp hplan).2
    exact ⟨by rw [hrest, List.length_drop], hwrites⟩

/-- The two ends of numbers are related by reversing each number. -/
theorem WellFormed.reversed [Host] (hf : f.WellFormed) :
    ∃ fields, Reversed (f.withOrder .littleEndian) (f.withOrder .bigEndian) fields := by
  obtain ⟨ps, stop, hw, hc⟩ := exists_chain_place .littleEndian hf 0
  have hbig : place .bigEndian 0 f.tokens = ps.map .ok := by
    rw [← hw]
    exact place_congr (show ByteOrder.bigEndian.aligned = ByteOrder.littleEndian.aligned from rfl)
      0 f.tokens
  have hw' : (f.withOrder .littleEndian).walk 0 = ps.map .ok := hw
  have hbig' : (f.withOrder .bigEndian).walk 0 = ps.map .ok := hbig
  have hshapes : ∀ e ∈ fieldsOf 0 ps, e.Shaped ∧ 0 ≤ e.offset ∧ e.stop ≤ stop :=
    fun e he => hc.field_bounds he
  refine ⟨fieldsOf 0 ps, ⟨fieldsFrom_of_walk hw', fieldsFrom_of_walk hbig'⟩, fun values => ?_,
    fun values r s hr hs => ?_, fun data => ?_⟩
  · rw [exists_pack_iff hw' hc, exists_pack_iff hbig' hc]
    exact and_congr Iff.rfl (packable_alike (fieldsOf_alike hw hbig 0))
  · obtain ⟨hlength, hfilled⟩ := filled_of_pack hw' hc hr
    obtain ⟨hlength', hfilled'⟩ := filled_of_pack hbig' hc hs
    obtain ⟨hsurplus, hfields⟩ := counts_of_pack hw' hc hr
    obtain ⟨hsurplus', hfields'⟩ := counts_of_pack hbig' hc hs
    have hdata := hfilled.eq_mirror hfilled' (by omega) (fun e he => hlength.symm ▸ hshapes e he)
      (hc.pairwise_fieldsOf 0)
    cases s
    simp only at hdata hsurplus' hfields' ⊢
    rw [hdata, hsurplus', hfields', hsurplus, hfields]
  · have hm := mirrored_mirror (fun e he => ⟨(hshapes e he).1, (hshapes e he).2.1⟩)
      (hc.pairwise_fieldsOf 0) data
    rw [unpack, unpack, unpackFrom_of_walk hw', unpackFrom_of_walk hbig']
    congr 1
    refine (mapM_congr fun p hp => ?_).symm
    obtain ⟨k, hk⟩ := exists_numbered_subset hp 0
    exact Placement.values_mirrored (hc.bounds hp).2.1 hk hm

/-- The two native orders are related by where the fields are. -/
theorem WellFormed.spread [Host] (hf : f.WellFormed) :
    ∃ fields fields' size,
      Spread (f.withOrder .native) (f.withOrder .nativeAligned) fields fields' size := by
  obtain ⟨ps, stop, hw, hc⟩ := exists_chain_place .native hf 0
  obtain ⟨qs, stop', hq, hc'⟩ := exists_chain_place .nativeAligned hf 0
  have hw' : (f.withOrder .native).walk 0 = ps.map .ok := hw
  have hq' : (f.withOrder .nativeAligned).walk 0 = qs.map .ok := hq
  have halike := fieldsOf_alike hw hq 0
  have hpackable : ∀ values, Packable .native (fieldsOf 0 ps) values ↔
      Packable .nativeAligned (fieldsOf 0 qs) values := fun values => packable_alike halike
  have hle := stop_le_of_place rfl hw hq hc hc' (le_refl 0)
  refine ⟨fieldsOf 0 ps, fieldsOf 0 qs, stop', ⟨fieldsFrom_of_walk hw', fieldsFrom_of_walk hq'⟩,
    size_of_walk hq' hc', regions_of_walk hq' hc', halike, fun values hsize => ?_,
    fun values s hs => ?_, fun values r hr => ?_, fun values r s hr hs => ?_⟩
  · rw [exists_pack_iff hw' hc, exists_pack_iff hq' hc']
    exact and_congr (iff_of_true hsize (by omega)) (hpackable values).symm
  · obtain ⟨hsize, hvalues⟩ := (exists_pack_iff hq' hc').mp ⟨s, hs⟩
    exact (exists_pack_iff hw' hc).mpr ⟨by omega, (hpackable values).mpr hvalues⟩
  · have hvalues := (hpackable values).mp ((exists_pack_iff hw' hc).mp ⟨r, hr⟩).2
    obtain ⟨hkept, hnone⟩ := pack_of_packable hq' hc' hvalues
    exact (le_or_gt stop' Host.storage).imp hkept hnone
  · obtain ⟨-, hfilled⟩ := filled_of_pack hw' hc hr
    obtain ⟨hlength, hfilled'⟩ := filled_of_pack hq' hc' hs
    obtain ⟨hsurplus, hfields⟩ := counts_of_pack hw' hc hr
    obtain ⟨hsurplus', hfields'⟩ := counts_of_pack hq' hc' hs
    have hcount := halike.length_eq
    have hbytes := hfilled.bytes_alike hfilled' halike
    refine ⟨by rw [hsurplus, hsurplus', hcount], by rw [hfields, hfields', hcount], hlength, ?_,
      hfilled'.elsewhere⟩
    exact hbytes.imp fun e e' h => h.trans (Specifier.turned_native _ _)

/-- How byte orders are related, whatever the well-formed tokens are: the two ends of numbers by
reversing each number, the network order and the native one as two names of these, and the native
order that aligns by moving the fields of the one that does not. -/
theorem withOrder_related [Host] (hf : f.WellFormed) :
    (∃ fields, Reversed (f.withOrder .littleEndian) (f.withOrder .bigEndian) fields) ∧
      Interchangeable (f.withOrder .bigEndian) (f.withOrder .network) ∧
      Interchangeable (f.withOrder .littleEndian) (f.withOrder .native) ∧
      ∃ fields fields' size,
        Spread (f.withOrder .native) (f.withOrder .nativeAligned) fields fields' size :=
  ⟨hf.reversed, interchangeable_withOrder f rfl rfl, interchangeable_withOrder f rfl rfl,
    hf.spread⟩

/-- Two shorts and a text: the shorts are reversed one by one, the text is not. Behind a text the
aligned record has its number at a place of its own, with the same bytes. -/
theorem withOrder_related_shorts :
    ∃ f g : Format, Descriptor.compile "2hs" = .ok f ∧ Descriptor.compile "si" = .ok g ∧
      (f.withOrder .littleEndian).unpack [1, 2, 3, 4, 0x61] =
        (f.withOrder .bigEndian).unpack [2, 1, 4, 3, 0x61] ∧
      ∃ r s, (g.withOrder .native).pack [.text [0x61], .int 5] = .ok r ∧
        (g.withOrder .nativeAligned).pack [.text [0x61], .int 5] = .ok s ∧
        s.data.slice 4 8 = r.data.slice 1 5 ∧ s.data[2]? = some 0 := by
  have hf : Descriptor.compile "2hs" =
      .ok ⟨.nativeAligned, [⟨2, .known .int16⟩, ⟨1, .known .string⟩], "2hs"⟩ := by cbv
  have hg : Descriptor.compile "si" =
      .ok ⟨.nativeAligned, [⟨1, .known .string⟩, ⟨1, .known .int32⟩], "si"⟩ := by cbv
  refine ⟨_, _, hf, hg, ?_, ?_⟩
  · obtain ⟨⟨fields, hreversed⟩, -⟩ := withOrder_related (Descriptor.wellFormed_of_compile hf)
    obtain rfl : fields = [⟨0, 2, .int16, 0⟩, ⟨2, 2, .int16, 1⟩, ⟨4, 1, .string, 2⟩] :=
      Except.ok.inj (hreversed.layouts.1.symm.trans (by rfl))
    exact hreversed.unpacked [1, 2, 3, 4, 0x61]
  · obtain ⟨-, -, -, fields, fields', size, hspread⟩ :=
      withOrder_related (Descriptor.wellFormed_of_compile hg)
    obtain rfl : fields = [⟨0, 1, .string, 0⟩, ⟨1, 4, .int32, 1⟩] :=
      Except.ok.inj (hspread.layouts.1.symm.trans (by rfl))
    obtain rfl : fields' = [⟨0, 1, .string, 0⟩, ⟨4, 4, .int32, 1⟩] :=
      Except.ok.inj (hspread.layouts.2.symm.trans (by rfl))
    obtain rfl : size = 8 := Except.ok.inj (hspread.total.symm.trans (by rfl))
    have hr : (Format.withOrder ⟨.nativeAligned, [⟨1, .known .string⟩, ⟨1, .known .int32⟩], "si"⟩
        .native).pack [.text [0x61], .int 5] = .ok ⟨[0x61, 5, 0, 0, 0], 0, 2⟩ := by cbv
    obtain ⟨s, hs⟩ := (hspread.packs_iff _ (by decide)).mpr ⟨_, hr⟩
    obtain ⟨-, -, hlength, hbytes, hgaps⟩ := hspread.packed _ _ _ hr hs
    have hnumber := (List.forall₂_cons.mp (List.forall₂_cons.mp hbytes).2).1
    refine ⟨_, s, hr, hs, hnumber, hgaps 2 (by omega) fun e he hcovers => ?_⟩
    simp only [List.mem_cons, List.not_mem_nil, or_false] at he
    rcases he with rfl | rfl
    · exact absurd hcovers.2 (by decide)
    · exact absurd hcovers.1 (by decide)

end Format

end BinaryLayout
