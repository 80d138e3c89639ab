import BinaryLayout.Proofs.EncodableValues
import BinaryLayout.Proofs.LayoutAgreement
import BinaryLayout.Proofs.SizeBounds

/-!
# Texts that are cut

A string field takes as many bytes of an encoded text as it has room for, wherever that ends.
Between two code points the bytes are the encoded form of a shorter text, and that is read back.
Inside a code point they are the encoded form of no text, and reading them is refused at the code
point that was not finished. So a packed record can be unpacked when none of its texts is cut
inside a code point.
-/
namespace BinaryLayout

/-! ## The first bytes of a text -/

namespace Utf8

/-- The first `n` bytes of a text are those of its first code points. -/
def EndsBetween (t : Text) (n : ℕ) : Prop := ∃ u, u <+: t ∧ bytes u = (bytes t).take n

/-- The first `n` bytes of a text stop short of the end of some code point, which is where
decoding them fails. -/
inductive EndsInside (t : Text) (n : ℕ) : DecodeFault → Prop where
  | unfinished {u : Text} {c : CodePoint} {first : UInt8} {tails : Bytes} {m : ℕ} :
      u ++ [c] <+: t → encodeCodePoint c = first :: tails → 0 < m → m ≤ tails.length →
      n = (bytes u).length + m →
      EndsInside t n ⟨(bytes u).length, m, first, .unexpectedEnd⟩

variable {t : Text} {n : ℕ} {fault : DecodeFault}

lemma bytes_cons (c : CodePoint) (t : Text) : bytes (c :: t) = encodeCodePoint c ++ bytes t :=
  List.flatMap_cons

lemma bytes_append (t u : Text) : bytes (t ++ u) = bytes t ++ bytes u := List.flatMap_append

/-- The first bytes of a text end between code points or inside one. -/
lemma endsBetween_or_inside (t : Text) (n : ℕ) :
    EndsBetween t n ∨ ∃ fault, EndsInside t n fault := by
  induction t generalizing n with
  | nil => exact .inl ⟨[], List.nil_prefix, List.take_nil.symm⟩
  | cons c t ih =>
    obtain rfl | hpos := Nat.eq_zero_or_pos n
    · exact .inl ⟨[], List.nil_prefix, rfl⟩
    -- Either all of `c` comes before the cut, which then is in the rest, or the cut is inside `c`.
    by_cases hle : (encodeCodePoint c).length ≤ n
    · obtain ⟨u, hu, hbytes⟩ | ⟨_, hinside⟩ := ih (n - (encodeCodePoint c).length)
      · refine .inl ⟨c :: u, (List.prefix_cons_inj c).mpr hu, ?_⟩
        rw [bytes_cons, bytes_cons, List.take_append, List.take_of_length_le hle, hbytes]
      · obtain @⟨u, _, _, _, _, hu, hc, h0, hm, hn⟩ := hinside
        refine .inr ⟨_, .unfinished (u := c :: u) ((List.prefix_cons_inj c).mpr hu) hc h0 hm ?_⟩
        rw [bytes_cons, List.length_append]
        omega
    · cases hc : encodeCodePoint c with
      | nil =>
        rw [hc] at hle
        exact absurd (Nat.zero_le n) hle
      | cons first tails =>
        rw [hc, List.length_cons] at hle
        exact .inr ⟨_, .unfinished (u := []) (List.prefix_append [c] t) hc hpos (by omega)
          (Nat.zero_add n).symm⟩

/-! ## Decoding the first bytes -/

lemma countTails_take {low high k : ℕ} {tails : Bytes} (h : Tails low high tails)
    (hk : k ≤ tails.length) : countTails tails.length low high (tails.take k) = k := by
  induction tails generalizing low high k with
  | nil => exact (Nat.le_zero.mp hk).symm
  | cons b tails ih =>
    cases k with
    | zero => rfl
    | succ k =>
      obtain ⟨hb, htails⟩ := h
      rw [List.length_cons, List.take_succ_cons, countTails, if_pos hb,
        ih htails (Nat.le_of_succ_le_succ hk), Nat.add_comm]

/-- A code point that is not finished is not decoded. -/
lemma decodeFrom_unfinished {b : UInt8} {tails : Bytes} {c : CodePoint} (h : Form b tails c)
    (position : ℕ) {m : ℕ} (h0 : 0 < m) (hm : m ≤ tails.length) :
    decodeFrom position ((b :: tails).take m) = .error ⟨position, m, b, .unexpectedEnd⟩ := by
  obtain ⟨lead, hb, hl, ht, -⟩ := h
  obtain ⟨k, rfl⟩ := Nat.exists_eq_succ_of_ne_zero h0.ne'
  have hcount := countTails_take ht (Nat.le_of_lt hm)
  rw [hl] at hcount
  rw [List.take_succ_cons, decodeFrom]
  simp only [hb, hcount]
  rw [if_neg (by omega), if_pos (List.length_take_le _ _), Nat.add_comm]

lemma decodeFrom_bytes_append (h : Encodable t) (position : ℕ) (rest : Bytes) :
    decodeFrom position (bytes t ++ rest) =
      (t ++ ·) <$> decodeFrom (position + (bytes t).length) rest := by
  induction t generalizing position with
  | nil =>
    simp only [bytes, List.flatMap_nil, List.nil_append, List.length_nil, Nat.add_zero, id_map']
  | cons c t ih =>
    rw [bytes_cons, List.append_assoc, decodeFrom_encodeCodePoint (h c List.mem_cons_self),
      ih fun d hd => h d (List.mem_cons_of_mem _ hd), List.length_append, Nat.add_assoc]
    cases decodeFrom (position + ((encodeCodePoint c).length + (bytes t).length)) rest <;> rfl

lemma EndsInside.lt (h : EndsInside t n fault) : n < (bytes t).length := by
  obtain ⟨⟨rest, rfl⟩, hc, h0, hm, rfl⟩ := h
  simp only [bytes_append, bytes_cons, hc, List.length_append, List.length_cons]
  omega

lemma decode_of_endsInside (ht : Encodable t) (h : EndsInside t n fault) :
    decode ((bytes t).take n) = .error fault := by
  obtain @⟨u, c, first, tails, m, ⟨rest, rfl⟩, hc, h0, hm, rfl⟩ := h
  have hu : Encodable u := fun d hd => ht d (by simp [hd])
  obtain ⟨b, others, hform, hshape⟩ := form_encodeCodePoint (ht c (by simp))
  obtain ⟨rfl, rfl⟩ := List.cons.inj (hc.symm.trans hform)
  have htake : (bytes (u ++ [c] ++ rest)).take ((bytes u).length + m) =
      bytes u ++ (first :: tails).take m := by
    rw [List.append_assoc, bytes_append, List.singleton_append, bytes_cons, hc,
      List.take_length_add_append, List.take_append_of_le_length (by simp; omega)]
  rw [htake, decode, decodeFrom_bytes_append hu, decodeFrom_unfinished hshape _ h0 hm,
    Nat.zero_add]
  rfl

lemma Encodable.of_prefix (ht : Encodable t) {u : Text} (hu : u <+: t) : Encodable u :=
  fun c hc => ht c (hu.subset hc)

/-- The first bytes of a text are decoded as the prefix whose bytes they are, and fail to be
decoded inside a code point only. -/
theorem decode_take (ht : Encodable t) (n : ℕ) :
    (∀ u, decode ((bytes t).take n) = .ok u ↔ u <+: t ∧ bytes u = (bytes t).take n) ∧
      ∀ fault, decode ((bytes t).take n) = .error fault ↔ EndsInside t n fault := by
  obtain ⟨v, hv, hbytes⟩ | ⟨fault, hfault⟩ := endsBetween_or_inside t n
  · have hdecode := decode_eq_ok_iff.mpr ⟨ht.of_prefix hv, hbytes⟩
    refine ⟨fun u => ⟨fun h => ?_, fun ⟨hu, hb⟩ => decode_eq_ok_iff.mpr ⟨ht.of_prefix hu, hb⟩⟩,
      fun other => ⟨fun h => ?_, fun h => decode_of_endsInside ht h⟩⟩
    · obtain rfl := Except.ok.inj (hdecode.symm.trans h)
      exact ⟨hv, hbytes⟩
    · cases hdecode.symm.trans h
  · have hdecode := decode_of_endsInside ht hfault
    refine ⟨fun u => ⟨fun h => ?_, fun ⟨hu, hb⟩ => decode_eq_ok_iff.mpr ⟨ht.of_prefix hu, hb⟩⟩,
      fun other => ⟨fun h => ?_, fun h => decode_of_endsInside ht h⟩⟩
    · cases hdecode.symm.trans h
    · obtain rfl := Except.error.inj (hdecode.symm.trans h)
      exact hfault

end Utf8

/-! ## Cut fields -/

namespace Field

variable {t : Text}

lemma decodeString_eq_error_iff {raw : Bytes} {fault : Fault} :
    decodeString raw = .error fault ↔
      ∃ utf8, Utf8.decode raw = .error utf8 ∧ fault = .invalidUtf8 raw utf8 := by
  unfold decodeString
  cases Utf8.decode raw <;> simp [eq_comm]

/-- A text in a field of some width is read as the prefix that fills the field, and is not read
when a code point is cut. -/
theorem decodeString_encodeString (ht : Utf8.Encodable t) {width : ℤ} (hw : 0 ≤ width) :
    ∃ raw, encodeString (.text t) width = .ok raw ∧
      (∀ u, decodeString raw = .ok u ↔ u <+: t ∧ Utf8.bytes u = raw) ∧
      ((∃ u, decodeString raw = .ok u) ↔ Utf8.EndsBetween t width.toNat) ∧
      ∀ fault, decodeString raw = .error fault ↔
        ∃ utf8, Utf8.EndsInside t width.toNat utf8 ∧ fault = .invalidUtf8 raw utf8 := by
  obtain ⟨hok, herror⟩ := Utf8.decode_take ht width.toNat
  have hread : ∀ u, decodeString ((Utf8.bytes t).take width.toNat) = .ok u ↔
      u <+: t ∧ Utf8.bytes u = (Utf8.bytes t).take width.toNat := fun u => by
    rw [decodeString_eq_ok_iff, ← Utf8.decode_eq_ok_iff, hok]
  refine ⟨(Utf8.bytes t).take width.toNat,
    encodeString_eq_ok_iff.mpr ⟨Utf8.bytes t, ⟨ht, rfl⟩, (sliceTo_of_nonneg hw).symm⟩, hread,
    exists_congr hread, fun fault => ?_⟩
  simp only [decodeString_eq_error_iff, herror]

end Field

namespace FieldLayout

/-- The text of a string field is not cut inside a code point. -/
def Whole (values : List Value) (e : FieldLayout) : Prop :=
  e.specifier = .string → ∀ t, values[e.index]? = some (.text t) → Utf8.EndsBetween t e.size.toNat

/-- The text of a string field is cut inside a code point, and so cannot be read. -/
inductive Torn (values : List Value) (e : FieldLayout) : Fault → Prop where
  | inside {t : Text} {utf8 : Utf8.DecodeFault} : e.specifier = .string →
      values[e.index]? = some (.text t) → Utf8.EndsInside t e.size.toNat utf8 →
      Torn values e (.invalidUtf8 ((Utf8.bytes t).take e.size.toNat) utf8)

variable {order : ByteOrder} {e : FieldLayout} {values : List Value} {data : Bytes}

/-- A text that was packed is read from its field unless it is cut inside a code point. -/
lemma decode_of_packed_text (hs : e.specifier = .string) {t : Text} (ht : Utf8.Encodable t)
    (hbytes : e.bytes data = (Utf8.bytes t).take e.size.toNat ++
      .zeros (e.size.toNat - ((Utf8.bytes t).take e.size.toNat).length)) :
    (Utf8.EndsBetween t e.size.toNat → ∃ v, e.decode order data = .ok v) ∧
      ∀ utf8, Utf8.EndsInside t e.size.toNat utf8 →
        e.decode order data = .error (.invalidUtf8 ((Utf8.bytes t).take e.size.toNat) utf8) := by
  have hread : e.decode order data = (Field.decodeString (e.bytes data)).map .text := by
    simp only [decode, read, hs, Specifier.kind]
  rw [hread, hbytes]
  constructor
  · rintro ⟨u, hu, htake⟩
    have hdecode := Field.decodeString_eq_ok_iff.mpr
      ⟨Field.encodable_append_zeros (ht.of_prefix hu)
        (e.size.toNat - ((Utf8.bytes t).take e.size.toNat).length), Field.bytes_append_zeros u _⟩
    rw [← htake] at hdecode ⊢
    rw [hdecode]
    exact ⟨_, rfl⟩
  · intro utf8 h
    have hfull : e.size.toNat - ((Utf8.bytes t).take e.size.toNat).length = 0 := by
      have := h.lt
      rw [List.length_take]
      omega
    have hdecode := Field.decodeString_eq_error_iff.mpr ⟨utf8, Utf8.decode_of_endsInside ht h, rfl⟩
    rw [hfull, Bytes.zeros, List.replicate_zero, List.append_nil, hdecode]
    rfl

lemma whole_or_torn (values : List Value) (e : FieldLayout) :
    e.Whole values ∨ ∃ fault, e.Torn values fault := by
  by_cases htext : e.specifier = .string ∧ ∃ t, values[e.index]? = some (.text t)
  · obtain ⟨hs, t, ht⟩ := htext
    obtain hbetween | ⟨utf8, hinside⟩ := Utf8.endsBetween_or_inside t e.size.toNat
    · refine .inl fun _ u hu => ?_
      obtain rfl := Value.text.inj (Option.some.inj (ht.symm.trans hu))
      exact hbetween
    · exact .inr ⟨_, .inside hs ht hinside⟩
  · exact .inl fun hs t ht => absurd ⟨hs, t, ht⟩ htext

end FieldLayout

/-- What packing leaves of a text in its field. -/
lemma Filled.packed_text {order : ByteOrder} {fields : List FieldLayout} {values : List Value}
    {data : Bytes} (h : Filled order fields values data) {e : FieldLayout}
    (he : fields[e.index]? = some e) (hshape : e.Shaped) (hs : e.specifier = .string) {t : Text}
    (ht : values[e.index]? = some (.text t)) :
    Utf8.Encodable t ∧ e.bytes data = (Utf8.bytes t).take e.size.toNat ++
      .zeros (e.size.toNat - ((Utf8.bytes t).take e.size.toNat).length) := by
  obtain ⟨v, raw, hv, hencode, -, hslice⟩ := h.field e.index e he
  obtain rfl := Option.some.inj (ht.symm.trans hv)
  simp only [FieldLayout.encode, hs, Specifier.kind] at hencode
  obtain ⟨_, ⟨hencodable, rfl⟩, rfl⟩ := Field.encodeString_eq_ok_iff.mp hencode
  rw [Field.sliceTo_of_nonneg hshape.positive.le] at hslice
  exact ⟨hencodable, hslice⟩

namespace Format

variable {f : Format} {stop : ℤ} {ps : List Placement} {values : List Value}
  {record : PackedRecord}

/-- A field of a packed record is read unless it is a text that is cut inside a code point. -/
lemma decode_of_pack [Host] (hw : f.walk 0 = ps.map .ok) (hc : Chain 0 ps stop)
    (h : f.pack values = .ok record) {e : FieldLayout} (he : e ∈ fieldsOf 0 ps)
    (htext : e.specifier = .string → ∀ v, values[e.index]? = some v → ∃ t, v = .text t) :
    (e.Whole values → ∃ v, e.decode f.order record.data = .ok v) ∧
      ∀ fault, e.Torn values fault → e.decode f.order record.data = .error fault := by
  obtain ⟨hlength, hfilled⟩ := filled_of_pack hw hc h
  obtain ⟨hshape, h0, hstop⟩ := hc.field_bounds he
  have hindex := getElem?_index_of_mem_fieldsOf he
  constructor
  · intro hwhole
    by_cases hs : e.specifier = .string
    · obtain ⟨v, raw, hv, -⟩ := hfilled.field e.index e hindex
      obtain ⟨t, rfl⟩ := htext hs v hv
      obtain ⟨ht, hbytes⟩ := hfilled.packed_text hindex hshape hs hv
      exact (FieldLayout.decode_of_packed_text hs ht hbytes).1 (hwhole hs t hv)
    · exact FieldLayout.exists_decode hshape (fun hk => hs (Specifier.eq_string hk))
        (FieldLayout.length_bytes h0 hshape.positive (by omega)) f.order
  · rintro _ ⟨hs, hv, hinside⟩
    obtain ⟨ht, hbytes⟩ := hfilled.packed_text hindex hshape hs hv
    exact (FieldLayout.decode_of_packed_text hs ht hbytes).2 _ hinside

lemma decode_iff_of_pack [Host] (hw : f.walk 0 = ps.map .ok) (hc : Chain 0 ps stop)
    (h : f.pack values = .ok record) {e : FieldLayout} (he : e ∈ fieldsOf 0 ps)
    (htext : e.specifier = .string → ∀ v, values[e.index]? = some v → ∃ t, v = .text t) :
    ((∃ v, e.decode f.order record.data = .ok v) ↔ e.Whole values) ∧
      ∀ fault, e.decode f.order record.data = .error fault ↔ e.Torn values fault := by
  obtain ⟨hok, herror⟩ := decode_of_pack hw hc h he htext
  obtain hwhole | ⟨fault, htorn⟩ := e.whole_or_torn values
  · obtain ⟨v, hv⟩ := hok hwhole
    refine ⟨iff_of_true ⟨v, hv⟩ hwhole, fun other => ⟨fun hother => ?_, herror other⟩⟩
    cases hv.symm.trans hother
  · have hfault := herror fault htorn
    refine ⟨⟨fun ⟨v, hv⟩ => ?_, hok⟩, fun other => ⟨fun hother => ?_, herror other⟩⟩
    · cases hv.symm.trans hfault
    · obtain rfl := Except.error.inj (hfault.symm.trans hother)
      exact htorn

/-- A packed record whose strings are texts is unpacked when no text is cut inside a code point,
and otherwise refused for the first one that is. -/
theorem unpack_pack_iff [Host] (hw : f.walk 0 = ps.map .ok) (hc : Chain 0 ps stop)
    (h : f.pack values = .ok record)
    (htext : ∀ e ∈ fieldsOf 0 ps, e.specifier = .string →
      ∀ v, values[e.index]? = some v → ∃ t, v = .text t) :
    ((∃ others, f.unpack record.data = .ok others) ↔ ∀ e ∈ fieldsOf 0 ps, e.Whole values) ∧
      ∀ fault, f.unpack record.data = .error fault ↔
        ∃ before e after, fieldsOf 0 ps = before ++ e :: after ∧
          (∀ other ∈ before, other.Whole values) ∧ e.Torn values fault := by
  obtain ⟨hlength, -⟩ := filled_of_pack hw hc h
  have hfield := fun e he => decode_iff_of_pack hw hc h he (htext e he)
  rw [unpack, unpackFrom_of_walk hw,
    mapM_values_of_inside f.order 0 (hc.inside (le_refl 0) hlength.ge)]
  rw [exists_mapM_eq_ok_iff]
  refine ⟨forall₂_congr fun e he => (hfield e he).1, fun fault => ?_⟩
  rw [mapM_eq_error_iff]
  refine exists_congr fun before => exists_congr fun e => exists_congr fun after =>
    and_congr_right fun hfields => and_congr (forall₂_congr fun other hother => ?_) ?_
  · exact (hfield other (hfields ▸ List.mem_append_left _ hother)).1
  · exact (hfield e (hfields ▸ List.mem_append_right _ List.mem_cons_self)).2 fault

/-- A text is read back from its field as the prefix that fills it, unless a code point is cut,
and then reading is refused there. So a packed record whose strings are texts is unpacked when
none of them is cut inside a code point, and otherwise refused for the first one that is. -/
theorem unpack_pack_texts [Host] :
    (∀ t, Utf8.Encodable t → ∀ width : ℤ, 0 ≤ width →
      ∃ raw, Field.encodeString (.text t) width = .ok raw ∧
        (∀ u, Field.decodeString raw = .ok u ↔ u <+: t ∧ Utf8.bytes u = raw) ∧
        ((∃ u, Field.decodeString raw = .ok u) ↔ Utf8.EndsBetween t width.toNat) ∧
        ∀ fault, Field.decodeString raw = .error fault ↔
          ∃ utf8, Utf8.EndsInside t width.toNat utf8 ∧ fault = .invalidUtf8 raw utf8) ∧
    ∀ (d : Text) (f : Format), Descriptor.compile d = .ok f →
      ∃ fields, f.layout = .ok fields ∧
        ∀ values record, f.pack values = .ok record →
          (∀ e ∈ fields, e.specifier = .string →
            ∀ v, values[e.index]? = some v → ∃ t, v = .text t) →
          ((∃ others, f.unpack record.data = .ok others) ↔ ∀ e ∈ fields, e.Whole values) ∧
          ∀ fault, f.unpack record.data = .error fault ↔
            ∃ before e after, fields = before ++ e :: after ∧
              (∀ other ∈ before, other.Whole values) ∧ e.Torn values fault := by
  refine ⟨fun t ht width hw => Field.decodeString_encodeString ht hw, fun d f hd => ?_⟩
  obtain ⟨ps, stop, hw, hc⟩ := (Descriptor.wellFormed_of_compile hd).exists_chain 0
  exact ⟨fieldsOf 0 ps, fieldsFrom_of_walk hw,
    fun values record h htext => unpack_pack_iff hw hc h htext⟩

/-- Two letters of two bytes each, of which the second is cut in half. -/
theorem unpack_pack_texts_half :
    ∃ f, Descriptor.compile "2s3s" = .ok f ∧
      (∃ record others, f.pack [.text [0xE9], .text [0xE9]] = .ok record ∧
        f.unpack record.data = .ok others) ∧
      ∃ record, f.pack [.text [0x41], .text [0xE9, 0xE9]] = .ok record ∧
        f.unpack record.data =
          .error (.invalidUtf8 [0xC3, 0xA9, 0xC3] ⟨2, 1, 0xC3, .unexpectedEnd⟩) := by
  have hd : Descriptor.compile "2s3s" =
      .ok ⟨.default, [⟨2, .known .string⟩, ⟨3, .known .string⟩], "2s3s"⟩ := by cbv
  obtain ⟨-, hrecords⟩ := unpack_pack_texts
  obtain ⟨fields, hfields, hread⟩ := hrecords _ _ hd
  obtain rfl : fields = [⟨0, 2, .string, 0⟩, ⟨2, 3, .string, 1⟩] :=
    Except.ok.inj (hfields.symm.trans (by rfl))
  have htexts : ∀ (t u : Text), ∀ e ∈ [FieldLayout.mk 0 2 .string 0, ⟨2, 3, .string, 1⟩],
      e.specifier = .string → ∀ v, [Value.text t, .text u][e.index]? = some v →
        ∃ t', v = .text t' := by
    intro t u
    simp
  refine ⟨_, hd, ?_, ?_⟩
  · have hpack : Format.pack ⟨.default, [⟨2, .known .string⟩, ⟨3, .known .string⟩], "2s3s"⟩
        [.text [0xE9], .text [0xE9]] = .ok ⟨[0xC3, 0xA9, 0xC3, 0xA9, 0], 0, 2⟩ := by cbv
    have hletter : Utf8.EndsBetween [0xE9] 2 ∧ Utf8.EndsBetween [0xE9] 3 :=
      ⟨⟨[0xE9], List.prefix_rfl, by decide⟩, ⟨[0xE9], List.prefix_rfl, by decide⟩⟩
    obtain ⟨others, hothers⟩ := (hread _ _ hpack (htexts _ _)).1.mpr (by
      simpa [FieldLayout.Whole] using hletter)
    exact ⟨_, others, hpack, hothers⟩
  · have hpack : Format.pack ⟨.default, [⟨2, .known .string⟩, ⟨3, .known .string⟩], "2s3s"⟩
        [.text [0x41], .text [0xE9, 0xE9]] = .ok ⟨[0x41, 0, 0xC3, 0xA9, 0xC3], 0, 2⟩ := by cbv
    have hwhole : FieldLayout.Whole [.text [0x41], .text [0xE9, 0xE9]] ⟨0, 2, .string, 0⟩ := by
      rintro - t ht
      obtain rfl := Value.text.inj (Option.some.inj ht)
      exact ⟨[0x41], List.prefix_rfl, by decide⟩
    have hinside : Utf8.EndsInside [0xE9, 0xE9] 3 ⟨2, 1, 0xC3, .unexpectedEnd⟩ :=
      .unfinished (u := [0xE9]) List.prefix_rfl
        (by decide : Utf8.encodeCodePoint 0xE9 = 0xC3 :: [0xA9]) (by decide) (by decide) (by decide)
    have htorn : FieldLayout.Torn [.text [0x41], .text [0xE9, 0xE9]] ⟨2, 3, .string, 1⟩
        (.invalidUtf8 ((Utf8.bytes [0xE9, 0xE9]).take 3) ⟨2, 1, 0xC3, .unexpectedEnd⟩) :=
      .inside rfl rfl hinside
    exact ⟨_, hpack, ((hread _ _ hpack (htexts _ _)).2 _).mpr ⟨[_], _, [], rfl,
      List.forall_mem_singleton.mpr hwhole, htorn⟩⟩

/-- A letter of two bytes in a field of one byte is packed and cannot be unpacked. -/
theorem unpack_pack_texts_split :
    Utf8.Encodable [0xE9] ∧ Field.encodeString (.text [0xE9]) 1 = .ok [0xC3] ∧
      Field.decodeString [0xC3] = .error (.invalidUtf8 [0xC3] ⟨0, 1, 0xC3, .unexpectedEnd⟩) ∧
      ∃ f record, Descriptor.compile "1s" = .ok f ∧ f.pack [.text [0xE9]] = .ok record ∧
        f.unpack record.data =
          .error (.invalidUtf8 [0xC3] ⟨0, 1, 0xC3, .unexpectedEnd⟩) := by
  refine ⟨by simp [Utf8.Encodable]; decide, rfl, by cbv,
    ⟨.default, [⟨1, .known .string⟩], "1s"⟩, ⟨[0xC3], 0, 1⟩, by cbv, by cbv, by cbv⟩

end Format

end BinaryLayout
