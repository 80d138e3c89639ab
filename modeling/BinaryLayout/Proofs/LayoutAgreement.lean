import BinaryLayout.Machine
import BinaryLayout.Proofs.Frames
import BinaryLayout.Proofs.Refusals
import Mathlib.Data.List.Permutation

/-!
# What the layout says

The layout lists the values of a record with their places. Packing and unpacking do not use it:
each counts values and moves over the bytes on its own. Here the three agree. There are as many
values as the layout has entries, and each is read from, and written to, the bytes of its entry.
-/
namespace BinaryLayout

/-! ## Alignment -/

/-- Elements that follow each other stay aligned. -/
lemma Specifier.alignment_dvd_size (s : Specifier) : s.alignment ∣ s.size := by
  cases s <;> decide

lemma ByteOrder.dvd_align {order : ByteOrder} (h : order.aligned = true) (s : Specifier)
    (offset : ℤ) : (s.alignment : ℤ) ∣ order.align s offset := by
  rw [align, if_pos h]
  exact dvd_add_padCount offset (by exact_mod_cast s.alignment_pos)

/-- Under an aligning byte order every token starts at a multiple of its alignment. -/
lemma aligned_of_place {order : ByteOrder} (h : order.aligned = true) {tokens : List Token}
    {offset : ℤ} {ps : List Placement} (hp : place order offset tokens = ps.map .ok) :
    ∀ p ∈ ps, (p.specifier.alignment : ℤ) ∣ p.offset := by
  induction tokens generalizing offset ps with
  | nil =>
    obtain rfl : ps = [] := List.map_eq_nil_iff.mp hp.symm
    exact fun p hp => absurd hp List.not_mem_nil
  | cons t rest ih =>
    obtain ⟨s, qs, -, rfl, hqs⟩ := place_cons_eq_ok hp
    intro q hq
    cases hq with
    | head => exact ByteOrder.dvd_align h s offset
    | tail _ hq => exact ih hqs q hq

lemma Placement.aligned_of_mem_fields {p : Placement} (h : (p.specifier.alignment : ℤ) ∣ p.offset)
    {k : ℕ} {e : FieldLayout} (he : e ∈ numbered k p.fields) :
    (e.specifier.alignment : ℤ) ∣ e.offset := by
  have hx := extent_mem_extents he
  rw [specifier_of_mem_fields he]
  unfold extents at hx
  cases hk : p.specifier.kind with
  | pad => rw [hk] at hx; exact absurd hx List.not_mem_nil
  | string =>
    simp only [hk, List.mem_singleton] at hx
    rw [show e.offset = p.offset from congrArg Prod.fst hx]
    exact h
  | char | int | real =>
    simp only [hk, List.mem_map, List.mem_range] at hx
    obtain ⟨i, -, hi⟩ := hx
    rw [← show p.elementOffset i = e.offset from congrArg Prod.fst hi]
    have hsize : (p.specifier.alignment : ℤ) ∣ p.specifier.size := by
      exact_mod_cast p.specifier.alignment_dvd_size
    exact dvd_add h (hsize.mul_left _)

/-! ## Numbers of fields -/

lemma index_of_getElem?_fieldsOf {k i : ℕ} {ps : List Placement} {e : FieldLayout}
    (h : (fieldsOf k ps)[i]? = some e) : e.index = k + i := by
  unfold fieldsOf numbered at h
  rw [List.getElem?_map, List.getElem?_zipIdx, Option.map_map, Option.map_eq_some_iff] at h
  obtain ⟨field, hfield, rfl⟩ := h
  obtain ⟨p, -, hp⟩ := List.mem_flatMap.mp (List.mem_of_getElem? hfield)
  obtain ⟨x, -, rfl⟩ := List.mem_map.mp hp
  rfl

lemma getElem?_index_of_mem_fieldsOf {ps : List Placement} {e : FieldLayout}
    (h : e ∈ fieldsOf 0 ps) : (fieldsOf 0 ps)[e.index]? = some e := by
  obtain ⟨i, hi⟩ := List.mem_iff_getElem?.mp h
  rw [index_of_getElem?_fieldsOf hi, Nat.zero_add, hi]

/-- Where the entries of a layout are: numbered in order, one behind the other, inside the record
and aligned if the byte order says so. -/
structure Regions (order : ByteOrder) (size : ℤ) (fields : List FieldLayout) : Prop where
  index : ∀ (i : ℕ) (e : FieldLayout), fields[i]? = some e → e.index = i
  inside : ∀ e ∈ fields, 0 ≤ e.offset ∧ 0 < e.size ∧ e.stop ≤ size
  ordered : fields.Pairwise FieldLayout.Before
  aligned : order.aligned = true → ∀ e ∈ fields, (e.specifier.alignment : ℤ) ∣ e.offset

/-- A record holds the bytes of the values in its fields, zeros behind a string that does not
fill its field, and zeros outside of all fields. -/
structure Filled (order : ByteOrder) (fields : List FieldLayout) (values : List Value)
    (data : Bytes) : Prop where
  field : ∀ (i : ℕ) (e : FieldLayout), fields[i]? = some e → ∃ v raw, values[i]? = some v ∧
    e.encode order v = .ok raw ∧ (e.specifier ≠ .string → (raw.length : ℤ) = e.size) ∧
    data.slice e.offset (e.offset + e.size) = raw ++ Bytes.zeros (e.size.toNat - raw.length)
  elsewhere : ∀ j < data.length, (∀ e ∈ fields, ¬e.Covers j) → data[j]? = some 0

lemma Framed.filled {order : ByteOrder} {fields : List FieldLayout} {values : List Value}
    {n : ℕ} {data : Bytes} (h : Framed order fields values (.zeros n) data)
    (hs : ∀ e ∈ fields, 0 ≤ e.offset ∧ 0 < e.size ∧ e.stop ≤ n) :
    Filled order fields values data := by
  have hlength : (Bytes.zeros n).length = n := Bytes.length_zeros n
  refine ⟨fun i e he => ?_, fun j hj hnone => ?_⟩
  · obtain ⟨h0, hpos, hstop⟩ := hs e (List.mem_of_getElem? he)
    obtain ⟨v, raw, hv, hraw, -, hwidth, hbytes⟩ := h.field i e he
    refine ⟨v, raw, hv, hraw, hwidth, hbytes.trans (congrArg (raw ++ ·) ?_)⟩
    refine FieldLayout.drop_bytes_of_zero h0 hpos (by rw [hlength]; exact hstop) _ fun j hj => ?_
    have hj2 := hj.2
    exact Bytes.getElem?_zeros (by omega)
  · have hj' := h.length
    exact (h.elsewhere j hnone).trans (Bytes.getElem?_zeros (by omega))

namespace Format

variable {f : Format} {stop : ℤ} {ps : List Placement}

/-- The fields of a record are where a layout has to have them. -/
theorem regions_of_walk (hw : f.walk 0 = ps.map .ok) (hc : Chain 0 ps stop) :
    Regions f.order stop (fieldsOf 0 ps) := by
  refine ⟨fun i e he => ?_, fun e he => ?_, hc.pairwise_fieldsOf 0, fun horder e he => ?_⟩
  · rw [index_of_getElem?_fieldsOf he, Nat.zero_add]
  · obtain ⟨hshape, hlow, hhigh⟩ := hc.field_bounds he
    exact ⟨hlow, hshape.positive, hhigh⟩
  · obtain ⟨p, hp, k, hk⟩ := Chain.exists_of_mem_fieldsOf he
    exact p.aligned_of_mem_fields (aligned_of_place horder hw p hp) hk

/-- A record of its own is written over zeros. -/
theorem framed_of_pack [Host] (hw : f.walk 0 = ps.map .ok) (hc : Chain 0 ps stop)
    {values : List Value} {record : PackedRecord} (h : f.pack values = .ok record) :
    Framed f.order (fieldsOf 0 ps) values (.zeros stop.toNat) record.data := by
  have hends := packEnds hw hc values
  rw [h] at hends
  cases hends with
  | packed _ hplan => exact framed_of_plan hw hc ((Bytes.length_zeros stop.toNat).symm ▸ hplan)

/-- A record of its own is as long as it has to be, and filled with its values. -/
theorem filled_of_pack [Host] (hw : f.walk 0 = ps.map .ok) (hc : Chain 0 ps stop)
    {values : List Value} {record : PackedRecord} (h : f.pack values = .ok record) :
    record.data.length = stop ∧ Filled f.order (fieldsOf 0 ps) values record.data := by
  have hframe := framed_of_pack hw hc h
  have hstart := hc.start_le_stop
  refine ⟨by rw [hframe.length, Bytes.length_zeros]; omega, hframe.filled fun e he => ?_⟩
  obtain ⟨h0, hpos, hstop⟩ := (regions_of_walk hw hc).inside e he
  exact ⟨h0, hpos, by omega⟩

/-- Where room is granted for a record of its own, packing it runs out of values just when there
are fewer than fields. -/
theorem pack_eq_insufficientValues_iff [Host] (hw : f.walk 0 = ps.map .ok) (hc : Chain 0 ps stop)
    {room : ℕ} (hroom : allocate stop = .ok room) {values : List Value}
    (hv : Fitting f.order (fieldsOf 0 ps) values) :
    (∃ needed given, f.pack values = .error (.insufficientValues needed given)) ↔
      values.length < (fieldsOf 0 ps).length := by
  have hstart := hc.start_le_stop
  have hin : ∀ p ∈ ps, p.Inside stop.toNat := hc.inside (le_refl 0) (by omega)
  have hfields := plan_of_inside hw hin values
  have hends := packEnds hw hc values
  constructor
  · rintro ⟨needed, given, h⟩
    rw [h] at hends
    cases hends with
    | noRoom _ hfault => cases hfault
    | refused _ hplan =>
      exact (planFields_eq_insufficientValues_iff.mp (hfields.symm.trans hplan)).1.1
  · intro hfew
    have hplan := hfields.trans (planFields_eq_insufficientValues_iff.mpr ⟨⟨hfew, hv⟩, rfl, rfl⟩)
    generalize f.pack values = r at hends
    cases hends with
    | noRoom ha _ => rw [hroom] at ha; cases ha
    | refused _ h => exact ⟨_, _, by rw [← Except.error.inj (hplan.symm.trans h)]⟩
    | notKept _ h => rw [hplan] at h; cases h
    | packed _ h => rw [hplan] at h; cases h

/-- The layout of an accepted descriptor agrees with packing and unpacking. Its entries are in
order; a record that is unpacked has one value for each entry, decoded from its bytes; one that
is packed has there the encoded value and zeros everywhere else; and packing runs out of values
that fit just when there are fewer than entries, where it does not stop for want of room before
it looks at them. -/
theorem layout_agrees [Host] {d : Text} (hd : Descriptor.compile d = .ok f) :
    ∃ fields size, f.layout = .ok fields ∧ f.arity = .ok fields.length ∧ f.size = .ok size ∧
      Regions f.order size fields ∧
      (∀ data values, f.unpack data = .ok values →
        List.Forall₂ (fun (e : FieldLayout) v =>
          e.read f.order (data.slice e.offset (e.offset + e.size)) = .ok v) fields values) ∧
      (∀ values record, f.pack values = .ok record →
        record.data.length = size ∧ Filled f.order fields values record.data) ∧
      ∀ values, Fitting f.order fields values →
        (∀ room, allocate size = .ok room →
          ((∃ needed given, f.pack values = .error (.insufficientValues needed given)) ↔
            values.length < fields.length)) ∧
        ∀ fault, allocate size = .error fault → NoRoom fault ∧ f.pack values = .error fault := by
  have hwell := Descriptor.wellFormed_of_compile hd
  obtain ⟨ps, stop, hw, hc⟩ := hwell.exists_chain 0
  refine ⟨fieldsOf 0 ps, stop, fieldsFrom_of_walk hw, arity_of_walk hwell hw, size_of_walk hw hc,
    regions_of_walk hw hc, fun data values h => ((unpackFrom_eq_ok_iff hw).mp h).2,
    fun values record h => filled_of_pack hw hc h, fun values hv => ⟨fun room hroom => ?_,
    fun fault hnone => ?_⟩⟩
  · exact pack_eq_insufficientValues_iff hw hc hroom hv
  · have hpack : f.pack values = .error fault := by
      simp only [pack, size_of_walk hw hc, hnone, bind, Except.bind]
    obtain ⟨size, rfl⟩ := Int.eq_ofNat_of_zero_le hc.start_le_stop
    obtain hsome | ⟨other, hother, hfault⟩ := allocate_natCast size
    · rw [hsome] at hnone
      cases hnone
    · obtain rfl := Except.error.inj (hother.symm.trans hnone)
      exact ⟨hfault, hpack⟩

/-- Values that are too few, and a record with a gap and a text that does not fill its field. -/
theorem layout_agrees_text :
    ∃ f, Descriptor.compile "@bi3s" = .ok f ∧ f.arity = .ok 3 ∧
      (∃ needed given, f.pack [.int (-2), .int 5] =
        .error (.insufficientValues needed given)) ∧
      ∃ record, f.pack [.int (-2), .int 5, .text [0xE9]] = .ok record ∧
        record.data.length = 11 ∧ record.data[2]? = some 0 ∧
        record.data.slice 8 11 = [0xC3, 0xA9, 0] := by
  have hd : Descriptor.compile "@bi3s" = .ok ⟨.nativeAligned,
      [⟨1, .known .int8⟩, ⟨1, .known .int32⟩, ⟨3, .known .string⟩], "@bi3s"⟩ := by cbv
  obtain ⟨fields, size, hl, harity, hs, -, -, hpack, hfew⟩ := layout_agrees hd
  obtain rfl : fields = [⟨0, 1, .int8, 0⟩, ⟨4, 4, .int32, 1⟩, ⟨8, 3, .string, 2⟩] :=
    Except.ok.inj (hl.symm.trans (by rfl))
  obtain rfl : size = 11 := Except.ok.inj (hs.symm.trans (by rfl))
  have hfit : Fitting .nativeAligned [⟨0, 1, .int8, 0⟩, ⟨4, 4, .int32, 1⟩, ⟨8, 3, .string, 2⟩]
      [.int (-2), .int 5] :=
    fitting_cons_iff.mpr ⟨⟨[0xFE], by cbv⟩, fitting_cons_iff.mpr ⟨⟨[5, 0, 0, 0], by cbv⟩,
      fun i e v _ hv => (by cases hv)⟩⟩
  have hrecord : Format.pack ⟨.nativeAligned,
      [⟨1, .known .int8⟩, ⟨1, .known .int32⟩, ⟨3, .known .string⟩], "@bi3s"⟩
      [.int (-2), .int 5, .text [0xE9]] =
        .ok ⟨[0xFE, 0, 0, 0, 5, 0, 0, 0, 0xC3, 0xA9, 0], 0, 3⟩ := by cbv
  refine ⟨_, hd, harity, ((hfew _ hfit).1 11 (by rfl)).mpr (by decide), _, hrecord, ?_⟩
  obtain ⟨hlength, hfilled⟩ := hpack _ _ hrecord
  refine ⟨by exact_mod_cast hlength, ?_, ?_⟩
  · refine hfilled.elsewhere 2 (by decide) fun e he hcov => ?_
    simp only [List.mem_cons, List.not_mem_nil, or_false] at he
    rcases he with rfl | rfl | rfl
    · exact absurd hcov.2 (by decide)
    · exact absurd hcov.1 (by decide)
    · exact absurd hcov.1 (by decide)
  · obtain ⟨v, raw, hv, hraw, -, hbytes⟩ := hfilled.field 2 ⟨8, 3, .string, 2⟩ rfl
    cases hv
    obtain rfl : raw = [0xC3, 0xA9] := Except.ok.inj (hraw.symm.trans (by cbv))
    exact hbytes

/-- Room for a record is asked for before its values are looked at, so a record that is too large
is refused for its size even when its value is missing. -/
theorem pack_missing_sizeTooLarge :
    ∃ f fields, Descriptor.compile "9223372036854775808s" = .ok f ∧ f.layout = .ok fields ∧
      f.arity = .ok 1 ∧ Fitting f.order fields [] ∧ f.pack [] = .error .sizeTooLarge ∧
      ¬((∃ needed given, f.pack [] = .error (.insufficientValues needed given)) ↔
        ([] : List Value).length < 1) := by
  have hd : Descriptor.compile "9223372036854775808s" =
      .ok ⟨.nativeAligned, [⟨9223372036854775808, .known .string⟩], "9223372036854775808s"⟩ := by
    cbv
  have hpack : Format.pack ⟨.nativeAligned, [⟨9223372036854775808, .known .string⟩],
      "9223372036854775808s"⟩ [] = .error .sizeTooLarge := by cbv
  refine ⟨_, [⟨0, 9223372036854775808, .string, 0⟩], hd, by cbv, by cbv,
    fun i e v _ hv => (by cases hv), hpack, fun h => ?_⟩
  obtain ⟨needed, given, hfew⟩ := h.mpr (by decide)
  rw [hpack] at hfew
  cases hfew

end Format

end BinaryLayout
