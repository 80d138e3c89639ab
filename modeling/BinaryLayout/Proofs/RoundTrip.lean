import BinaryLayout.Machine
import BinaryLayout.Proofs.Frames

/-!
# Round trips

Values that are packed into a buffer are unpacked from it again: each field is written once, and
what is written later goes behind it. Data that is unpacked is packed as it was, since every
field is encoded as the bytes it was decoded from.
-/
namespace BinaryLayout

/-! ## From values to values -/

/-- The bytes of the string fields are zeros. -/
def Blank (data : Bytes) (fields : List FieldLayout) : Prop :=
  ∀ e ∈ fields, e.specifier = .string → ∀ i : ℕ, e.Covers i → data[i]? = some 0

/-- Behind a value that its field holds there are zeros up to the end of the field. -/
lemma FieldLayout.drop_bytes_of_blank {order : ByteOrder} {e : FieldLayout} {data : Bytes}
    {fields : List FieldLayout} (he : e ∈ fields) (hz : Blank data fields) (hshape : e.Shaped)
    (h0 : 0 ≤ e.offset) (hstop : e.stop ≤ data.length) {v : Value} {raw : Bytes}
    (h : e.encode order v = .ok raw) :
    (e.bytes data).drop raw.length = Bytes.zeros (e.size.toNat - raw.length) := by
  by_cases hstring : e.specifier = .string
  · exact drop_bytes_of_zero h0 hshape.positive hstop _ (hz e he hstring)
  · have hlen := length_of_encode hshape (fun hk => hstring (Specifier.eq_string hk)) h
    have hbytes := length_bytes h0 hshape.positive hstop
    rw [List.drop_of_length_le (by omega), show e.size.toNat - raw.length = 0 by omega]
    rfl

/-- Values that fit ordered fields can be packed, and decoding the fields gives them back. -/
theorem exists_plan_decode (order : ByteOrder) (given : ℕ) {fields : List FieldLayout}
    {values : List Value} (hv : List.Forall₂ FieldLayout.Holds fields values) {data : Bytes}
    (hs : ∀ e ∈ fields, e.Shaped ∧ 0 ≤ e.offset ∧ e.stop ≤ data.length)
    (hp : fields.Pairwise FieldLayout.Before) (hz : Blank data fields) :
    ∃ writes, planFields order given fields values = .ok ⟨writes, []⟩ ∧
      List.Forall₂ (fun e v => FieldLayout.decode order (data.spliceAll writes) e = .ok v) fields
        (List.zipWith FieldLayout.restored fields values) := by
  obtain ⟨writes, hplan⟩ := exists_plan_of_holds order given hv fun e he => (hs e he).1
  have hframe := framed_of_planFields hs hp hplan
  refine ⟨writes, hplan, ?_⟩
  rw [List.forall₂_iff_get] at hv ⊢
  obtain ⟨hlen, hholds⟩ := hv
  refine ⟨by rw [List.length_zipWith, ← hlen, Nat.min_self], fun i h1 h2 => ?_⟩
  have hmem := List.get_mem fields ⟨i, h1⟩
  obtain ⟨hshape, h0, hstop⟩ := hs _ hmem
  obtain ⟨v, raw, hv, hraw, -, -, hbytes⟩ :=
    hframe.field i (fields.get ⟨i, h1⟩) (List.getElem?_eq_getElem h1)
  obtain rfl : values.get ⟨i, hlen ▸ h1⟩ = v :=
    Option.some.inj ((List.getElem?_eq_getElem (hlen ▸ h1)).symm.trans hv)
  obtain ⟨raw', hraw', hread⟩ := FieldLayout.read_encode hshape (hholds i h1 (hlen ▸ h1)) order
  obtain rfl : raw' = raw := Except.ok.inj (hraw'.symm.trans hraw)
  unfold FieldLayout.decode
  rw [hbytes, FieldLayout.drop_bytes_of_blank hmem hz hshape h0 hstop hraw, hread]
  simp

namespace Format

variable {f : Format} {offset stop : ℤ} {ps : List Placement}

/-- Over a walk that does not stop early, what is planned comes back. -/
lemma unpackFrom_spliceAll (hw : f.walk offset = ps.map .ok) (hc : Chain offset ps stop)
    {values : List Value} (hv : List.Forall₂ FieldLayout.Holds (fieldsOf 0 ps) values)
    {data : Bytes} (hin : ∀ p ∈ ps, p.Inside data.length) (hz : Blank data (fieldsOf 0 ps)) :
    ∃ writes, f.plan data.length offset values = .ok ⟨writes, []⟩ ∧
      f.unpackFrom (data.spliceAll writes) offset =
        .ok (List.zipWith FieldLayout.restored (fieldsOf 0 ps) values) := by
  obtain ⟨writes, hplan, hdecode⟩ := exists_plan_decode f.order values.length hv
    (fun e he => ⟨(hc.field_bounds he).1, hc.field_inside hin he⟩) (hc.pairwise_fieldsOf 0) hz
  have hp := (plan_eq_ok_iff hw).mpr ⟨hin, hplan⟩
  have hlength := Bytes.length_spliceAll (inside_of_plan hw hc hp)
  refine ⟨writes, hp, (unpackFrom_eq_ok_iff hw).mpr ⟨?_, hdecode⟩⟩
  rw [hlength]
  exact hin

/-- Values that fit their fields come back from wherever they are packed, each string followed by
zeros up to the width of its field. A record of its own is packed if there is room for it. -/
theorem unpackFrom_packInto [Host] {d : Text} (hd : Descriptor.compile d = .ok f) :
    (∀ offset, ∃ fields, f.fieldsFrom offset = .ok fields ∧ f.arity = .ok fields.length ∧
      ∀ values, List.Forall₂ FieldLayout.Holds fields values →
        ∀ b : Buffer, Blank b.data fields → ∀ n, (f.packInto b offset values).outcome = .ok n →
          f.unpackFrom (f.packInto b offset values).buffer.data offset =
            .ok (List.zipWith FieldLayout.restored fields values)) ∧
    ∃ fields size, f.layout = .ok fields ∧ f.size = .ok size ∧
      ∀ values, List.Forall₂ FieldLayout.Holds fields values →
        (size ≤ Host.storage → ∃ record, f.pack values = .ok record ∧
          f.unpack record.data = .ok (List.zipWith FieldLayout.restored fields values)) ∧
        (Host.storage < size → ∃ fault, f.pack values = .error fault ∧ NoRoom fault) := by
  have hwf := Descriptor.wellFormed_of_compile hd
  constructor
  · intro offset
    obtain ⟨ps, stop, hw, hc⟩ := hwf.exists_chain offset
    refine ⟨fieldsOf 0 ps, fieldsFrom_of_walk hw, arity_of_walk hwf hw, ?_⟩
    intro values hv b hz n hn
    obtain ⟨hb, plan, hplan⟩ := plan_of_packInto hn
    obtain ⟨writes, hwrites, hback⟩ :=
      unpackFrom_spliceAll hw hc hv ((plan_eq_ok_iff hw).mp hplan).1 hz
    rw [packInto_of_plan hw hc hb hwrites]
    exact hback
  · obtain ⟨ps, stop, hw, hc⟩ := hwf.exists_chain 0
    have h0 := hc.start_le_stop
    have hlen : (Bytes.zeros stop.toNat).length = stop.toNat := Bytes.length_zeros _
    have hin : ∀ p ∈ ps, p.Inside (Bytes.zeros stop.toNat).length :=
      hc.inside (le_refl 0) (by omega)
    have hz : Blank (.zeros stop.toNat) (fieldsOf 0 ps) := by
      intro e he _ i hi
      have h1 := (hc.field_bounds he).2.2
      have h2 := hi.2
      exact Bytes.getElem?_zeros (by omega)
    refine ⟨fieldsOf 0 ps, stop, fieldsFrom_of_walk hw, size_of_walk hw hc, ?_⟩
    intro values hv
    obtain ⟨writes, hwrites, hback⟩ := unpackFrom_spliceAll hw hc hv hin hz
    rw [hlen] at hwrites
    obtain ⟨-, hroom, hnone⟩ := pack_of_plan hw hc hwrites
    exact ⟨fun hle => ⟨_, hroom hle, hback⟩, hnone⟩

/-- A number behind an alignment gap, and a text that does not fill its field. -/
theorem unpackFrom_packInto_text :
    ∃ f, Descriptor.compile "@bi3s" = .ok f ∧
      f.unpackFrom (f.packInto (.whole .growable [7, 7, 7, 7, 7, 7, 7, 7, 0, 0, 0]) 1
        [.int (-2), .int 5, .text [0xE9]]).buffer.data 1 =
          .ok [.int (-2), .int 5, .text [0xE9, 0]] ∧
      ∃ record, f.pack [.int (-2), .int 5, .text [0xE9]] = .ok record ∧
        f.unpack record.data = .ok [.int (-2), .int 5, .text [0xE9, 0]] := by
  have hd : Descriptor.compile "@bi3s" = .ok ⟨.nativeAligned,
      [⟨1, .known .int8⟩, ⟨1, .known .int32⟩, ⟨3, .known .string⟩], "@bi3s"⟩ := by cbv
  have hbyte : Word.Fits true 1 (-2) := by decide
  have hnumber : Word.Fits true 4 5 := by decide
  have htext : Utf8.Encodable [0xE9] := fun c hc => by
    rw [List.mem_singleton.mp hc]
    rfl
  have hv : ∀ o o' o'' : ℤ, List.Forall₂ FieldLayout.Holds
      [⟨o, 1, .int8, 0⟩, ⟨o', 4, .int32, 1⟩, ⟨o'', 3, .string, 2⟩]
      [.int (-2), .int 5, .text [0xE9]] := fun o o' o'' =>
    .cons ⟨rfl, hbyte⟩ (.cons ⟨rfl, hnumber⟩ (.cons (.inr ⟨rfl, htext, by
      change ((Utf8.bytes [0xE9]).length : ℤ) ≤ 3
      decide⟩) .nil))
  obtain ⟨hinto, fields, size, hl, hs, hpack⟩ := unpackFrom_packInto hd
  refine ⟨_, hd, ?_, ?_⟩
  · obtain ⟨fields, hf, -, h⟩ := hinto 1
    obtain rfl : fields = [⟨1, 1, .int8, 0⟩, ⟨4, 4, .int32, 1⟩, ⟨8, 3, .string, 2⟩] :=
      Except.ok.inj (hf.symm.trans (by rfl))
    refine h _ (hv 1 4 8) _ ?_ 3 (by cbv)
    intro e he hstring i hi
    simp only [List.mem_cons, List.not_mem_nil, or_false] at he
    rcases he with rfl | rfl | rfl
    · cases hstring
    · cases hstring
    · obtain ⟨h8, h11⟩ := hi
      unfold FieldLayout.stop at h11
      simp only at h8 h11
      obtain rfl | rfl | rfl : i = 8 ∨ i = 9 ∨ i = 10 := by omega
      all_goals rfl
  · obtain rfl : fields = [⟨0, 1, .int8, 0⟩, ⟨4, 4, .int32, 1⟩, ⟨8, 3, .string, 2⟩] :=
      Except.ok.inj (hl.symm.trans (by rfl))
    obtain rfl : size = 11 := Except.ok.inj (hs.symm.trans (by rfl))
    exact (hpack _ (hv 0 4 8)).1 (by decide)

end Format

/-! ## From data to data -/

lemma encode_of_decode {order : ByteOrder} {data : Bytes} {fields : List FieldLayout}
    {values : List Value}
    (hs : ∀ e ∈ fields, e.Shaped ∧ 0 ≤ e.offset ∧ e.stop ≤ data.length)
    (hq : ∀ e ∈ fields, ¬e.Signals order (e.bytes data))
    (h : List.Forall₂ (fun e v => FieldLayout.decode order data e = .ok v) fields values) :
    List.Forall₂ (fun e v => FieldLayout.encode order e v = .ok (e.bytes data)) fields values := by
  rw [List.forall₂_iff_get] at h ⊢
  refine ⟨h.1, fun i h1 h2 => ?_⟩
  have hmem := List.get_mem fields ⟨i, h1⟩
  obtain ⟨hshape, h0, hstop⟩ := hs _ hmem
  have hlen := FieldLayout.length_bytes h0 hshape.positive hstop
  exact FieldLayout.encode_read hshape hlen (hq _ hmem) (h.2 i h1 h2)

/-- Fields that are written with values of some data have the bytes of that data. -/
lemma Framed.getElem?_of_encode {order : ByteOrder} {fields : List FieldLayout}
    {values : List Value} {data source written : Bytes}
    (h : Framed order fields values data written)
    (hs : ∀ e ∈ fields, e.Shaped ∧ 0 ≤ e.offset ∧ e.stop ≤ data.length)
    (hsource : ∀ e ∈ fields, e.stop ≤ source.length)
    (hv : List.Forall₂ (fun e v => FieldLayout.encode order e v = .ok (e.bytes source)) fields
      values) {e : FieldLayout} (he : e ∈ fields) {i : ℕ} (hi : e.Covers i) :
    written[i]? = source[i]? := by
  obtain ⟨hshape, h0, hstop⟩ := hs e he
  have hpos := hshape.positive
  obtain ⟨k, hk⟩ := List.mem_iff_getElem?.mp he
  obtain ⟨v, raw, hvalue, hraw, -, -, hbytes⟩ := h.field k e hk
  obtain ⟨hlt, rfl⟩ := List.getElem?_eq_some_iff.mp hk
  obtain ⟨hlt', rfl⟩ := List.getElem?_eq_some_iff.mp hvalue
  obtain rfl : fields[k].bytes source = raw :=
    Except.ok.inj (((List.forall₂_iff_get.mp hv).2 k hlt hlt').symm.trans hraw)
  have hdata := FieldLayout.length_bytes h0 hpos hstop
  have hlen := FieldLayout.length_bytes h0 hpos (hsource _ he)
  rw [List.drop_of_length_le (by omega), List.append_nil] at hbytes
  rw [← FieldLayout.getElem?_bytes h0 hpos (h.length.symm ▸ hstop) hi, hbytes,
    FieldLayout.getElem?_bytes h0 hpos (hsource _ he) hi]

namespace Format

variable {f : Format} {offset stop : ℤ} {ps : List Placement}

/-- Unpacked values are planned into any buffer with room, and the record that is written has the
bytes of the fields that they were unpacked from. -/
lemma plan_of_unpackFrom (hw : f.walk offset = ps.map .ok) (hc : Chain offset ps stop)
    {source : Bytes} {values : List Value} (h : f.unpackFrom source offset = .ok values)
    (hq : ∀ e ∈ fieldsOf 0 ps, ¬e.Signals f.order (e.bytes source)) {data : Bytes}
    (hin : ∀ p ∈ ps, p.Inside data.length) :
    ∃ plan, f.plan data.length offset values = .ok plan ∧
      plan.writes.length = (fieldsOf 0 ps).length ∧ plan.rest = [] ∧
      (data.spliceAll plan.writes).length = data.length ∧
      (∀ e ∈ fieldsOf 0 ps, ∀ i : ℕ, e.Covers i →
        (data.spliceAll plan.writes)[i]? = source[i]?) ∧
      ∀ i : ℕ, (∀ e ∈ fieldsOf 0 ps, ¬e.Covers i) →
        (data.spliceAll plan.writes)[i]? = data[i]? := by
  obtain ⟨hsource, hdecode⟩ := (unpackFrom_eq_ok_iff hw).mp h
  have henc := encode_of_decode
    (fun e he => ⟨(hc.field_bounds he).1, hc.field_inside hsource he⟩) hq hdecode
  have hplan := (plan_eq_ok_iff hw).mpr ⟨hin, planFields_of_forall₂ values.length henc⟩
  have hframe := framed_of_plan hw hc hplan
  refine ⟨_, hplan, List.length_map _, rfl, hframe.length, fun e he i hi => ?_, hframe.elsewhere⟩
  exact hframe.getElem?_of_encode
    (fun e he => ⟨(hc.field_bounds he).1, hc.field_inside hin he⟩)
    (fun e he => (hc.field_inside hsource he).2) henc he hi

/-- Unpacked values are packed where they were as they were. -/
lemma packInto_of_unpackFrom (hw : f.walk offset = ps.map .ok) (hc : Chain offset ps stop)
    {b : Buffer} (hb : b.holding.readOnly = false) {values : List Value}
    (h : f.unpackFrom b.data offset = .ok values)
    (hq : ∀ e ∈ fieldsOf 0 ps, ¬e.Signals f.order (e.bytes b.data)) :
    f.packInto b offset values = ⟨b, 0, .ok (fieldsOf 0 ps).length⟩ := by
  obtain ⟨plan, hplan, hwrites, hrest, -, hfields, hother⟩ :=
    plan_of_unpackFrom hw hc h hq ((unpackFrom_eq_ok_iff hw).mp h).1
  have hsame : b.data.spliceAll plan.writes = b.data := by
    apply List.ext_getElem?
    intro i
    by_cases hi : ∃ e ∈ fieldsOf 0 ps, e.Covers i
    · obtain ⟨e, he, hcov⟩ := hi
      exact hfields e he i hcov
    · exact hother i fun e he hcov => hi ⟨e, he, hcov⟩
  rw [packInto_of_plan hw hc hb hplan, hsame, hwrites, hrest]
  rfl

/-- Data that is unpacked is packed again as it was, but for the bytes that no value has, which
are zeros in a record of its own. A single that is a signalling NaN does not take part. -/
theorem packInto_unpackFrom [Host] {d : Text} (hd : Descriptor.compile d = .ok f) :
    (∃ ps fields size, f.placements 0 = .ok ps ∧ f.layout = .ok fields ∧ f.size = .ok size ∧
      ∀ data values, f.unpack data = .ok values →
        (∀ e ∈ fields, ¬e.Signals f.order (e.bytes data)) →
        (size ≤ Host.storage → ∃ record, f.pack values = .ok record ∧
          record.data.length = size ∧
          (∀ i : ℕ, (∃ e ∈ fields, e.Covers i) → record.data[i]? = data[i]?) ∧
          (∀ p ∈ ps, p.specifier.kind = .pad → ∀ i : ℕ, p.offset ≤ i → (i : ℤ) < p.stop →
            record.data[i]? = some 0) ∧
          (∀ i < record.data.length, (∀ e ∈ fields, ¬e.Covers i) →
            record.data[i]? = some 0)) ∧
        (Host.storage < size → ∃ fault, f.pack values = .error fault ∧ NoRoom fault)) ∧
    ∀ offset, ∃ fields, f.fieldsFrom offset = .ok fields ∧
      ∀ (b : Buffer) values, b.holding.readOnly = false →
        f.unpackFrom b.data offset = .ok values →
        (∀ e ∈ fields, ¬e.Signals f.order (e.bytes b.data)) →
        f.packInto b offset values = ⟨b, 0, .ok fields.length⟩ := by
  have hwf := Descriptor.wellFormed_of_compile hd
  constructor
  · obtain ⟨ps, stop, hw, hc⟩ := hwf.exists_chain 0
    have hstart := hc.start_le_stop
    have hlen : (Bytes.zeros stop.toNat).length = stop.toNat := Bytes.length_zeros _
    have hin : ∀ p ∈ ps, p.Inside (Bytes.zeros stop.toNat).length :=
      hc.inside (le_refl 0) (by omega)
    refine ⟨ps, fieldsOf 0 ps, stop, placements_of_walk hw, fieldsFrom_of_walk hw,
      size_of_walk hw hc, ?_⟩
    intro data values h hq
    obtain ⟨plan, hplan, -, -, hlength, hfields, hother⟩ := plan_of_unpackFrom hw hc h hq hin
    rw [hlen] at hplan hlength
    obtain ⟨-, hsome, hnone⟩ := pack_of_plan hw hc hplan
    refine ⟨fun hle => ⟨_, hsome hle, ?_, fun i hi => ?_, ?_, ?_⟩, hnone⟩
    · simp only [hlength]
      omega
    · obtain ⟨e, he, hcov⟩ := hi
      exact hfields e he i hcov
    · intro p hp hpad i hlow hhigh
      have hbound := (hc.bounds hp).2.2
      refine (hother i fun e he hcov => ?_).trans (Bytes.getElem?_zeros (by omega))
      have hcov1 := hcov.1
      have hcov2 := hcov.2
      have := hc.before_or_behind_pad he hp hpad
      omega
    · intro i hi hnone
      exact (hother i hnone).trans (Bytes.getElem?_zeros (by simpa only [hlength] using hi))
  · intro offset
    obtain ⟨ps, stop, hw, hc⟩ := hwf.exists_chain offset
    exact ⟨fieldsOf 0 ps, fieldsFrom_of_walk hw, fun b values hb h hq =>
      packInto_of_unpackFrom hw hc hb h hq⟩

/-- Bytes of a gap are not taken along into a record of its own. -/
theorem packInto_unpackFrom_gap :
    ∃ f, Descriptor.compile "@bf" = .ok f ∧
      f.unpack [0xFE, 9, 9, 9, 0, 0, 0x80, 0x3F] =
        .ok [.int (-2), .real (.widen 0x3F800000)] ∧
      (∃ record, f.pack [.int (-2), .real (.widen 0x3F800000)] = .ok record ∧
        record.data[0]? = some 0xFE ∧ record.data[1]? = some 0) ∧
      f.packInto (.whole .growable [0xFE, 9, 9, 9, 0, 0, 0x80, 0x3F]) 0
          [.int (-2), .real (.widen 0x3F800000)] =
        ⟨.whole .growable [0xFE, 9, 9, 9, 0, 0, 0x80, 0x3F], 0, .ok 2⟩ := by
  have hd : Descriptor.compile "@bf" =
      .ok ⟨.nativeAligned, [⟨1, .known .int8⟩, ⟨1, .known .float32⟩], "@bf"⟩ := by cbv
  have hu : Format.unpack ⟨.nativeAligned, [⟨1, .known .int8⟩, ⟨1, .known .float32⟩], "@bf"⟩
      [0xFE, 9, 9, 9, 0, 0, 0x80, 0x3F] = .ok [.int (-2), .real (.widen 0x3F800000)] := by rfl
  have hq : ∀ e ∈ [FieldLayout.mk 0 1 .int8 0, ⟨4, 4, .float32, 1⟩],
      ¬e.Signals .nativeAligned (e.bytes [0xFE, 9, 9, 9, 0, 0, 0x80, 0x3F]) := by
    intro e he
    simp only [List.mem_cons, List.not_mem_nil, or_false] at he
    rcases he with rfl | rfl
    · exact fun h => absurd h.1 (by decide)
    · intro h
      have h2 := h.2.1
      revert h2
      decide
  obtain ⟨⟨ps, fields, size, -, hl, hs, hpack⟩, hinto⟩ := packInto_unpackFrom hd
  refine ⟨_, hd, hu, ?_, ?_⟩
  · obtain rfl : fields = [⟨0, 1, .int8, 0⟩, ⟨4, 4, .float32, 1⟩] :=
      Except.ok.inj (hl.symm.trans (by rfl))
    obtain rfl : size = 8 := Except.ok.inj (hs.symm.trans (by rfl))
    obtain ⟨record, hrecord, hlength, hcovered, -, hother⟩ := (hpack _ _ hu hq).1 (by decide)
    refine ⟨record, hrecord, ?_, ?_⟩
    · exact hcovered 0 ⟨_, List.mem_cons_self, by decide, by decide⟩
    · refine hother 1 (by omega) fun e he hcov => ?_
      simp only [List.mem_cons, List.not_mem_nil, or_false] at he
      rcases he with rfl | rfl
      · exact absurd hcov.2 (by decide)
      · exact absurd hcov.1 (by decide)
  · obtain ⟨fields, hf, h⟩ := hinto 0
    obtain rfl : fields = [⟨0, 1, .int8, 0⟩, ⟨4, 4, .float32, 1⟩] :=
      Except.ok.inj (hf.symm.trans (by rfl))
    exact h _ _ rfl hu hq

end Format

end BinaryLayout
