import BinaryLayout.Proofs.LayoutAgreement

/-!
# Records at an offset

Padding depends on an offset only by the remainder that its alignment leaves. So tokens that are
moved by a multiple of their alignments keep their distances, and a record at such an offset is
unpacked as its bytes are on their own, and packed with the bytes of a record of its own. All
alignments are powers of two, therefore a multiple of the largest one is a multiple of each.
-/
namespace BinaryLayout

/-! ## Alignments -/

/-- The alignment of a type; a name that the table does not know has none. -/
def Code.alignment : Code → ℕ
  | .known s => s.alignment
  | .unknown _ => 1

/-- The largest alignment of the tokens. -/
def largestAlignment (tokens : List Token) : ℕ :=
  (tokens.map fun t => t.code.alignment).foldr max 1

/-- What the offset of a record has to be a multiple of: the largest alignment of its types, where
the byte order aligns. -/
def Format.alignment (f : Format) : ℕ :=
  if f.order.aligned then largestAlignment f.tokens else 1

lemma Code.eq_known {c : Code} {s : Specifier} (h : c.specifier = .ok s) : c = .known s := by
  cases c with
  | known other => cases h; rfl
  | unknown name => cases h

lemma Code.exists_alignment_eq_two_pow (c : Code) : ∃ n, c.alignment = 2 ^ n := by
  cases c with
  | known s =>
    cases s <;> first | exact ⟨0, rfl⟩ | exact ⟨1, rfl⟩ | exact ⟨2, rfl⟩ | exact ⟨3, rfl⟩
  | unknown _ => exact ⟨0, rfl⟩

lemma exists_largestAlignment_eq_two_pow (tokens : List Token) :
    ∃ n, largestAlignment tokens = 2 ^ n := by
  induction tokens with
  | nil => exact ⟨0, rfl⟩
  | cons t rest ih =>
    change ∃ n, max t.code.alignment (largestAlignment rest) = 2 ^ n
    rcases max_choice t.code.alignment (largestAlignment rest) with h | h
    · rw [h]
      exact t.code.exists_alignment_eq_two_pow
    · rw [h]
      exact ih

lemma alignment_le_largestAlignment {tokens : List Token} {t : Token} (ht : t ∈ tokens) :
    t.code.alignment ≤ largestAlignment tokens := by
  induction tokens with
  | nil => exact absurd ht List.not_mem_nil
  | cons u rest ih =>
    change t.code.alignment ≤ max u.code.alignment (largestAlignment rest)
    cases ht with
    | head => exact le_max_left _ _
    | tail _ ht => exact (ih ht).trans (le_max_right _ _)

theorem alignment_dvd_largestAlignment {tokens : List Token} {t : Token} (ht : t ∈ tokens) :
    t.code.alignment ∣ largestAlignment tokens := by
  have hle := alignment_le_largestAlignment ht
  obtain ⟨m, hm⟩ := t.code.exists_alignment_eq_two_pow
  obtain ⟨n, hn⟩ := exists_largestAlignment_eq_two_pow tokens
  rw [hm, hn] at hle ⊢
  exact Nat.pow_dvd_pow 2 ((Nat.pow_le_pow_iff_right (by decide)).mp hle)

/-! ## Tokens that are moved -/

/-- The byte order does not align, or the distance is a multiple of every alignment. -/
def Movable (order : ByteOrder) (distance : ℤ) (tokens : List Token) : Prop :=
  order.aligned = true → ∀ t ∈ tokens, (t.code.alignment : ℤ) ∣ distance

lemma Format.movable {f : Format} {distance : ℤ} (h : (f.alignment : ℤ) ∣ distance) :
    Movable f.order distance f.tokens := by
  intro haligned t ht
  rw [alignment, if_pos haligned] at h
  exact (Int.natCast_dvd_natCast.mpr (alignment_dvd_largestAlignment ht)).trans h

lemma padCount_add {alignment distance : ℤ} (offset : ℤ) (h : 0 < alignment)
    (hd : alignment ∣ distance) :
    padCount (offset + distance) alignment = padCount offset alignment := by
  obtain ⟨k, rfl⟩ := hd
  have hneg : -(offset + alignment * k) = -offset + alignment * -k := by ring
  rw [padCount_eq_emod _ h, padCount_eq_emod _ h, hneg, Int.add_mul_emod_self_left]

lemma ByteOrder.align_add {order : ByteOrder} {s : Specifier} {distance : ℤ}
    (h : order.aligned = true → (s.alignment : ℤ) ∣ distance) (offset : ℤ) :
    order.align s (offset + distance) = order.align s offset + distance := by
  unfold align
  split
  · next haligned =>
    have hpos : (0 : ℤ) < s.alignment := by exact_mod_cast s.alignment_pos
    rw [padCount_add offset hpos (h haligned)]
    ring
  · rfl

def Placement.moved (distance : ℤ) (p : Placement) : Placement :=
  { p with offset := p.offset + distance }

@[simp] lemma Placement.stop_moved (distance : ℤ) (p : Placement) :
    (p.moved distance).stop = p.stop + distance := by
  simp only [stop, moved, size]
  ring

/-- Tokens that are placed from an offset farther on are at the same places, moved. -/
theorem place_add {order : ByteOrder} {distance offset : ℤ} {tokens : List Token}
    {ps : List Placement} (hm : Movable order distance tokens)
    (h : place order offset tokens = ps.map .ok) :
    place order (offset + distance) tokens = (ps.map (Placement.moved distance)).map .ok := by
  induction tokens generalizing offset ps with
  | nil =>
    obtain rfl : ps = [] := List.map_eq_nil_iff.mp h.symm
    rfl
  | cons t rest ih =>
    obtain ⟨s, qs, hs, rfl, hqs⟩ := place_cons_eq_ok h
    have halign : order.align s (offset + distance) = order.align s offset + distance :=
      ByteOrder.align_add (fun haligned => by
        have hdvd := hm haligned t List.mem_cons_self
        rwa [Code.eq_known hs] at hdvd) offset
    have hrest := ih (fun haligned u hu => hm haligned u (List.mem_cons_of_mem _ hu)) hqs
    rw [← Placement.stop_moved] at hrest
    rw [place, hs]
    simp only [halign]
    exact congrArg (_ :: ·) hrest

lemma Chain.moved {start stop : ℤ} {ps : List Placement} (h : Chain start ps stop)
    (distance : ℤ) :
    Chain (start + distance) (ps.map (Placement.moved distance)) (stop + distance) := by
  induction h with
  | nil => exact .nil _
  | cons hstart hcount _ ih =>
    refine .cons (by simpa only [Placement.moved] using Int.add_le_add_right hstart _) hcount ?_
    rwa [Placement.stop_moved]

lemma Chain.movedTo {stop : ℤ} {ps : List Placement} (h : Chain 0 ps stop) (offset : ℤ) :
    Chain offset (ps.map (Placement.moved offset)) (offset + stop) := by
  have hmoved := h.moved offset
  rwa [Int.zero_add, Int.add_comm stop offset] at hmoved

lemma Chain.inside_iff {start stop : ℤ} {ps : List Placement} (h : Chain start ps stop)
    (h0 : 0 ≤ start) (hne : ps ≠ []) {length : ℕ} :
    (∀ p ∈ ps, p.Inside length) ↔ stop ≤ length := by
  refine ⟨fun hin => ?_, fun hstop => h.inside h0 hstop⟩
  obtain ⟨p, hp⟩ := List.exists_mem_of_ne_nil ps hne
  have hstart := (h.bounds hp).1
  have hlt := Placement.offset_lt_stop (h.bounds hp).2.1
  have hend := (hin p hp).2
  exact h.stop_le (by omega) hin

/-! ## Fields that are moved -/

namespace FieldLayout

def moved (distance : ℤ) (count : ℕ) (e : FieldLayout) : FieldLayout :=
  ⟨e.offset + distance, e.size, e.specifier, e.index + count⟩

@[simp] lemma stop_moved (distance : ℤ) (count : ℕ) (e : FieldLayout) :
    (e.moved distance count).stop = e.stop + distance := by
  simp only [stop, moved]
  ring

end FieldLayout

lemma numbered_moved (k : ℕ) (extents : List (ℤ × ℤ)) (s : Specifier) (distance : ℤ)
    (count : ℕ) :
    numbered (k + count) ((extents.map fun x => (x.1 + distance, x.2)).map fun x =>
        FieldLayout.mk x.1 x.2 s) =
      (numbered k (extents.map fun x => FieldLayout.mk x.1 x.2 s)).map
        (FieldLayout.moved distance count) := by
  induction extents generalizing k with
  | nil => rfl
  | cons x extents ih =>
    simp only [List.map_cons, numbered_cons, Nat.add_right_comm k count 1, ih (k + 1)]
    rfl

lemma Placement.extents_moved (distance : ℤ) (p : Placement) :
    (p.moved distance).extents = p.extents.map fun x => (x.1 + distance, x.2) := by
  unfold extents moved
  cases p.specifier.kind with
  | pad => rfl
  | string => rfl
  | char | int | real =>
    simp only [List.map_map]
    apply List.map_congr_left
    intro i _
    simp only [elementOffset, Function.comp_apply, Prod.mk.injEq, and_true]
    ring

/-- The fields of tokens that are moved are moved as far. -/
theorem fieldsOf_moved (k : ℕ) (ps : List Placement) (distance : ℤ) (count : ℕ) :
    fieldsOf (k + count) (ps.map (Placement.moved distance)) =
      (fieldsOf k ps).map (FieldLayout.moved distance count) := by
  induction ps generalizing k with
  | nil => rfl
  | cons p ps ih =>
    have hfields : (p.moved distance).fields = (p.extents.map fun x =>
        (x.1 + distance, x.2)).map fun x => FieldLayout.mk x.1 x.2 p.specifier := by
      rw [Placement.fields, Placement.extents_moved]
      rfl
    have hlength : (p.moved distance).fields.length = p.fields.length := by
      rw [hfields, Placement.fields, List.length_map, List.length_map, List.length_map]
    rw [List.map_cons, fieldsOf_cons, fieldsOf_cons, List.map_append, hlength,
      Nat.add_right_comm, ih, hfields, numbered_moved]
    rfl

lemma fitting_moved {order : ByteOrder} {fields : List FieldLayout} {values : List Value}
    (distance : ℤ) (count : ℕ) :
    Fitting order (fields.map (FieldLayout.moved distance count)) values ↔
      Fitting order fields values := by
  constructor
  · intro h i e v he hv
    exact h i (e.moved distance count) v (by rw [List.getElem?_map, he]; rfl) hv
  · intro h i e v he hv
    rw [List.getElem?_map, Option.map_eq_some_iff] at he
    obtain ⟨e, he, rfl⟩ := he
    exact h i e v he hv

/-! ## Slices of some data -/

namespace Bytes

variable {data : Bytes} {start stop a b : ℤ}

lemma slice_slice (h0 : 0 ≤ start) (hstop : stop ≤ data.length) (ha : 0 ≤ a) (hab : a ≤ b)
    (hb : start + b ≤ stop) :
    (data.slice start stop).slice a b = data.slice (a + start) (b + start) := by
  have hlength := length_slice h0 (by omega) hstop
  apply List.ext_getElem?
  intro i
  rw [getElem?_slice ha hab (by omega), getElem?_slice h0 (by omega) hstop,
    getElem?_slice (by omega) (by omega) (by omega)]
  by_cases hi : i < (b - a).toNat
  · rw [if_pos hi, if_pos (by omega), if_pos (by omega)]
    congr 1
    omega
  · rw [if_neg hi, if_neg (by omega)]

lemma length_slice_le (h0 : 0 ≤ start) (hne : data.slice start stop ≠ []) :
    start + (data.slice start stop).length ≤ data.length := by
  have hpos := List.length_pos_iff.mpr hne
  have hle := place_le data.length stop
  have hlength : (data.slice start stop).length =
      place data.length stop - place data.length start := by
    rw [slice, List.length_drop, List.length_take, Nat.min_eq_left hle]
  have hplace : place data.length start = min start.toNat data.length := if_neg (by omega)
  omega

end Bytes

lemma forall₂_decode_moved {order : ByteOrder} {data : Bytes} {start stop : ℤ}
    {fields : List FieldLayout} (h0 : 0 ≤ start) (hstop : stop ≤ data.length)
    (hs : ∀ e ∈ fields, 0 ≤ e.offset ∧ 0 < e.size ∧ start + e.stop ≤ stop) (count : ℕ)
    {values : List Value} :
    List.Forall₂ (fun e v => FieldLayout.decode order data e = .ok v)
        (fields.map (FieldLayout.moved start count)) values ↔
      List.Forall₂ (fun e v => FieldLayout.decode order (data.slice start stop) e = .ok v)
        fields values := by
  have hdecode : ∀ e ∈ fields, FieldLayout.decode order data (e.moved start count) =
      FieldLayout.decode order (data.slice start stop) e := by
    intro e he
    obtain ⟨hoffset, hsize, hend⟩ := hs e he
    have hbytes : (e.moved start count).bytes data = e.bytes (data.slice start stop) := by
      rw [FieldLayout.bytes, FieldLayout.bytes, Bytes.slice_slice h0 hstop hoffset
        (FieldLayout.offset_le_stop hsize) hend, FieldLayout.stop_moved]
      rfl
    rw [FieldLayout.decode, FieldLayout.decode, hbytes]
    rfl
  rw [← mapM_eq_ok_iff, ← mapM_eq_ok_iff, List.mapM_map]
  exact Eq.congr_left (mapM_congr hdecode)

/-! ## Bytes that are written -/

/-- Packing the values writes a byte at the place. -/
def Written (order : ByteOrder) (fields : List FieldLayout) (values : List Value) (k : ℕ) : Prop :=
  ∃ (i : ℕ) (e : FieldLayout) (v : Value) (raw : Bytes), fields[i]? = some e ∧
    values[i]? = some v ∧ e.encode order v = .ok raw ∧ e.offset ≤ k ∧
    (k : ℤ) < e.offset + raw.length

/-- What is written to fields that are moved is written to the fields, at the same distance. -/
lemma exists_written_of_moved {order : ByteOrder} {fields : List FieldLayout}
    {values : List Value} (h0 : ∀ e ∈ fields, 0 ≤ e.offset) {distance count j : ℕ}
    (h : Written order (fields.map (FieldLayout.moved distance count)) values j) :
    ∃ k, j = distance + k ∧ Written order fields values k := by
  obtain ⟨i, e', v, raw, he', hv, hraw, hlow, hhigh⟩ := h
  rw [List.getElem?_map, Option.map_eq_some_iff] at he'
  obtain ⟨e, he, rfl⟩ := he'
  have hoffset := h0 e (List.mem_of_getElem? he)
  simp only [FieldLayout.moved] at hlow hhigh
  exact ⟨j - distance, by omega, i, e, v, raw, he, hv, hraw, by omega, by omega⟩

namespace Framed

variable {order : ByteOrder} {fields : List FieldLayout} {values : List Value} {old new : Bytes}

lemma getElem?_field (h : Framed order fields values old new) {i : ℕ} {e : FieldLayout} {v : Value}
    {raw : Bytes} (he : fields[i]? = some e) (hv : values[i]? = some v)
    (hraw : e.encode order v = .ok raw) (h0 : 0 ≤ e.offset) (hsize : 0 < e.size)
    (hstop : e.stop ≤ old.length) {k : ℕ} (hlow : e.offset ≤ k)
    (hhigh : (k : ℤ) < e.offset + raw.length) : new[k]? = raw[k - e.offset.toNat]? := by
  obtain ⟨v', raw', hv', hraw', hle, -, hbytes⟩ := h.field i e he
  obtain rfl : v = v' := Option.some.inj (hv.symm.trans hv')
  obtain rfl : raw = raw' := Except.ok.inj (hraw.symm.trans hraw')
  have hcovers : e.Covers k := ⟨hlow, by unfold FieldLayout.stop; omega⟩
  rw [← FieldLayout.getElem?_bytes h0 hsize (h.length.symm ▸ hstop) hcovers, hbytes,
    List.getElem?_append_left (by omega)]

lemma getElem?_of_not_written (h : Framed order fields values old new)
    (hs : ∀ e ∈ fields, 0 ≤ e.offset ∧ 0 < e.size ∧ e.stop ≤ old.length) {k : ℕ}
    (hk : ¬Written order fields values k) : new[k]? = old[k]? := by
  by_cases hcover : ∃ e ∈ fields, e.Covers k
  swap
  · exact h.elsewhere k fun e he hc => hcover ⟨e, he, hc⟩
  obtain ⟨e, he, hc⟩ := hcover
  obtain ⟨h0, hsize, hstop⟩ := hs e he
  obtain ⟨i, hi⟩ := List.mem_iff_getElem?.mp he
  obtain ⟨v, raw, hv, hraw, hle, -, hbytes⟩ := h.field i e hi
  have hbehind : ¬(k : ℤ) < e.offset + raw.length := fun hlt =>
    hk ⟨i, e, v, raw, hi, hv, hraw, hc.1, hlt⟩
  rw [← FieldLayout.getElem?_bytes h0 hsize (h.length.symm ▸ hstop) hc, hbytes,
    List.getElem?_append_right (by omega), List.getElem?_drop,
    ← FieldLayout.getElem?_bytes h0 hsize hstop hc]
  congr 1
  omega

/-- What is written to fields and to fields that are moved is the same at the same distance. -/
lemma getElem?_moved {old' new' : Bytes} {distance count : ℕ}
    (h : Framed order fields values old new)
    (h' : Framed order (fields.map (FieldLayout.moved distance count)) values old' new')
    (hs : ∀ e ∈ fields,
      0 ≤ e.offset ∧ 0 < e.size ∧ e.stop ≤ old.length ∧ e.stop + distance ≤ old'.length)
    {k : ℕ} (hk : Written order fields values k) : new'[distance + k]? = new[k]? := by
  obtain ⟨i, e, v, raw, he, hv, hraw, hlow, hhigh⟩ := hk
  obtain ⟨h0, hsize, hstop, hend⟩ := hs e (List.mem_of_getElem? he)
  have hmoved : (fields.map (FieldLayout.moved distance count))[i]? =
      some (e.moved distance count) := by
    rw [List.getElem?_map, he]
    rfl
  rw [h.getElem?_field he hv hraw h0 hsize hstop hlow hhigh,
    h'.getElem?_field hmoved hv hraw (by simp only [FieldLayout.moved]; omega) hsize
      (by rwa [FieldLayout.stop_moved]) (by simp only [FieldLayout.moved]; omega)
      (by simp only [FieldLayout.moved]; omega)]
  congr 1
  simp only [FieldLayout.moved]
  omega

end Framed

/-! ## Records at an offset -/

namespace Format

variable {f : Format} {offset stop : ℤ} {ps : List Placement}

lemma walk_moved (hw : f.walk 0 = ps.map .ok) (hm : Movable f.order offset f.tokens) :
    f.walk offset = (ps.map (Placement.moved offset)).map .ok := by
  have hplace := place_add hm hw
  rwa [zero_add] at hplace

lemma fieldsOf_walk_moved (ps : List Placement) (offset : ℤ) :
    fieldsOf 0 (ps.map (Placement.moved offset)) =
      (fieldsOf 0 ps).map (FieldLayout.moved offset 0) :=
  fieldsOf_moved 0 ps offset 0

lemma inside_moved_iff (hc : Chain 0 ps stop) (hne : ps ≠ []) (h0 : 0 ≤ offset) {length : ℕ} :
    (∀ p ∈ ps.map (Placement.moved offset), p.Inside length) ↔ offset + stop ≤ length :=
  (hc.movedTo offset).inside_iff h0 (by simpa using hne)

/-- A record at an offset is unpacked as its bytes are on their own. -/
theorem unpackFrom_eq_ok_iff_slice (hw : f.walk 0 = ps.map .ok) (hc : Chain 0 ps stop)
    (hne : ps ≠ []) (h0 : 0 ≤ offset) (hm : Movable f.order offset f.tokens) {data : Bytes}
    {values : List Value} :
    f.unpackFrom data offset = .ok values ↔
      f.unpack (data.slice offset (offset + stop)) = .ok values := by
  have hstart := hc.start_le_stop
  rw [unpack, unpackFrom_eq_ok_iff (walk_moved hw hm), unpackFrom_eq_ok_iff hw,
    inside_moved_iff hc hne h0, hc.inside_iff (le_refl 0) hne, fieldsOf_walk_moved]
  by_cases hroom : offset + stop ≤ data.length
  · have hlength : ((data.slice offset (offset + stop)).length : ℤ) = stop := by
      rw [Bytes.length_slice h0 (by omega) hroom]
      omega
    have hfields : ∀ e ∈ fieldsOf 0 ps,
        0 ≤ e.offset ∧ 0 < e.size ∧ offset + e.stop ≤ offset + stop := by
      intro e he
      obtain ⟨hshape, hlow, hhigh⟩ := hc.field_bounds he
      exact ⟨hlow, hshape.positive, by omega⟩
    exact and_congr (iff_of_true hroom hlength.ge) (forall₂_decode_moved h0 hroom hfields 0)
  · -- A slice that is as long as the record would end behind the data.
    refine iff_of_false (fun h => hroom h.1) fun h => hroom ?_
    have hpos : 0 < stop := by
      obtain ⟨p, hp⟩ := List.exists_mem_of_ne_nil ps hne
      have hlt := Placement.offset_lt_stop (hc.bounds hp).2.1
      have hbounds := hc.bounds hp
      omega
    have hslice : data.slice offset (offset + stop) ≠ [] := fun hnil => by
      have hle := h.1
      rw [hnil, List.length_nil] at hle
      omega
    have hle := Bytes.length_slice_le h0 hslice
    have hstop := h.1
    omega

/-- Where a record is packed at an offset, and as a record of its own, the same bytes are written
at the same distance. -/
lemma packInto_eq_pack [Host] (hw : f.walk 0 = ps.map .ok) (hc : Chain 0 ps stop) {start : ℕ}
    (hm : Movable f.order start f.tokens) {b : Buffer} {values : List Value} {n : ℕ}
    (hn : (f.packInto b start values).outcome = .ok n) {record : PackedRecord}
    (hr : f.pack values = .ok record) :
    ∃ data, (f.packInto b start values).buffer = { b with data := data } ∧
      data.length = b.data.length ∧
      (∀ k, Written f.order (fieldsOf 0 ps) values k → data[start + k]? = record.data[k]?) ∧
      ∀ j, (∀ k, Written f.order (fieldsOf 0 ps) values k → j ≠ start + k) →
        data[j]? = b.data[j]? := by
  have hw' := walk_moved hw hm
  have hc' := hc.movedTo start
  obtain ⟨hb, plan, hplan⟩ := plan_of_packInto hn
  have hin := ((plan_eq_ok_iff hw').mp hplan).1
  have hframe := framed_of_plan hw' hc' hplan
  have hown := framed_of_pack hw hc hr
  have hlength := Bytes.length_zeros stop.toNat
  have hstart := hc.start_le_stop
  rw [fieldsOf_walk_moved] at hframe
  have hfields : ∀ e ∈ fieldsOf 0 ps, 0 ≤ e.offset ∧ 0 < e.size ∧ e.stop ≤ stop ∧
      e.stop + start ≤ b.data.length := by
    intro e he
    obtain ⟨hshape, hlow, hhigh⟩ := hc.field_bounds he
    have hmem := List.mem_map_of_mem (f := FieldLayout.moved start 0) he
    rw [← fieldsOf_walk_moved] at hmem
    have hinside := (hc'.field_inside hin hmem).2
    rw [FieldLayout.stop_moved] at hinside
    exact ⟨hlow, hshape.positive, hhigh, hinside⟩
  refine ⟨_, by rw [packInto_of_plan hw' hc' hb hplan], hframe.length, fun k hk => ?_,
    fun j hj => hframe.getElem?_of_not_written (fun e' he' => ?_) fun hk => ?_⟩
  · refine hown.getElem?_moved hframe (fun e he => ?_) hk
    obtain ⟨h0, hsize, hstop, hend⟩ := hfields e he
    exact ⟨h0, hsize, by omega, hend⟩
  · obtain ⟨e, he, rfl⟩ := List.mem_map.mp he'
    obtain ⟨h0, hsize, -, hend⟩ := hfields e he
    exact ⟨by simp only [FieldLayout.moved]; omega, hsize, by rwa [FieldLayout.stop_moved]⟩
  · obtain ⟨k, rfl, hwritten⟩ := exists_written_of_moved (fun e he => (hfields e he).1) hk
    exact hj k hwritten rfl

lemma ne_nil_of_walk (hne : f.tokens ≠ []) (hw : f.walk offset = ps.map .ok) : ps ≠ [] := by
  obtain ⟨t, rest, htokens⟩ := List.exists_cons_of_ne_nil hne
  rw [walk, htokens] at hw
  obtain ⟨s, qs, -, rfl, -⟩ := place_cons_eq_ok hw
  exact List.cons_ne_nil _ _

/-- A record at an offset that its alignment divides is the record at the start, moved. It is
unpacked as its bytes are on their own. It is packed, if it fits the buffer, just when it is packed
as a record of its own, with the same bytes at the same distance. That holds on every machine that
can keep the buffer or the record; the part about the buffer needs no room at all. -/
theorem packInto_translated [Host] {d : Text} (hd : Descriptor.compile d = .ok f)
    (hne : f.tokens ≠ []) {start : ℕ} (ho : (f.alignment : ℤ) ∣ start) :
    ∃ fields size, f.layout = .ok fields ∧ f.size = .ok size ∧
      (∀ data values, f.unpackFrom data start = .ok values ↔
        f.unpack (data.slice start (start + size)) = .ok values) ∧
      ∀ b values, b.holding.readOnly = false →
        (b.data.length ≤ Host.storage ∨ size ≤ Host.storage →
          ((∃ n, (f.packInto b start values).outcome = .ok n) ↔
            (∃ record, f.pack values = .ok record) ∧ start + size ≤ b.data.length)) ∧
        ((∃ n, (f.packInto b start values).outcome = .ok n) ↔
          Packable f.order fields values ∧ start + size ≤ b.data.length) ∧
        ∀ n record, (f.packInto b start values).outcome = .ok n → f.pack values = .ok record →
          ∃ data, (f.packInto b start values).buffer = { b with data := data } ∧
            data.length = b.data.length ∧
            (∀ k, Written f.order fields values k → data[start + k]? = record.data[k]?) ∧
            ∀ j, (∀ k, Written f.order fields values k → j ≠ start + k) →
              data[j]? = b.data[j]? := by
  obtain ⟨ps, stop, hw, hc⟩ := (Descriptor.wellFormed_of_compile hd).exists_chain 0
  have hps := ne_nil_of_walk hne hw
  have hm := movable ho
  have h0 := Int.natCast_nonneg start
  have hw' := walk_moved hw hm
  have hc' := hc.movedTo start
  have hpackable : ∀ values, Packable f.order (fieldsOf 0 (ps.map (Placement.moved start))) values ↔
      Packable f.order (fieldsOf 0 ps) values := by
    intro values
    rw [Packable, fieldsOf_walk_moved, fitting_moved, List.length_map]
    rfl
  refine ⟨fieldsOf 0 ps, stop, fieldsFrom_of_walk hw, size_of_walk hw hc,
    fun data values => unpackFrom_eq_ok_iff_slice hw hc hps h0 hm,
    fun b values hb => ?_⟩
  have hinto : (∃ n, (f.packInto b start values).outcome = .ok n) ↔
      Packable f.order (fieldsOf 0 ps) values ∧ start + stop ≤ b.data.length := by
    rw [exists_packInto_iff hw' hc' hb, hpackable, inside_moved_iff hc hps h0, and_comm]
  refine ⟨fun hroom => ?_, hinto, fun n record hn hr => packInto_eq_pack hw hc hm hn hr⟩
  rw [hinto, exists_pack_iff hw hc]
  constructor
  · rintro ⟨hvalues, hfits⟩
    exact ⟨⟨by omega, hvalues⟩, hfits⟩
  · rintro ⟨⟨-, hvalues⟩, hfits⟩
    exact ⟨hvalues, hfits⟩

/-- A number behind a byte at an offset of four: the gap in front of the number stays as it was,
and the bytes are those of the record that starts at zero. -/
theorem packInto_translated_gap :
    ∃ f, Descriptor.compile "@bi" = .ok f ∧
      f.unpackFrom [9, 9, 9, 9, 0xFE, 7, 7, 7, 5, 0, 0, 0] 4 = .ok [.int (-2), .int 5] ∧
      ∃ data, (f.packInto (.whole .growable (.zeros 12)) 4 [.int (-2), .int 5]).buffer =
          .whole .growable data ∧ data[8]? = some 5 ∧ data[5]? = some 0 := by
  have hd : Descriptor.compile "@bi" =
      .ok ⟨.nativeAligned, [⟨1, .known .int8⟩, ⟨1, .known .int32⟩], "@bi"⟩ := by cbv
  have hrecord : Format.pack ⟨.nativeAligned, [⟨1, .known .int8⟩, ⟨1, .known .int32⟩], "@bi"⟩
      [.int (-2), .int 5] = .ok ⟨[0xFE, 0, 0, 0, 5, 0, 0, 0], 0, 2⟩ := by cbv
  have ho : ((Format.alignment ⟨.nativeAligned, [⟨1, .known .int8⟩, ⟨1, .known .int32⟩], "@bi"⟩ :
      ℕ) : ℤ) ∣ (4 : ℕ) := by decide
  obtain ⟨fields, size, hl, hs, hunpack, hpack⟩ := packInto_translated hd (by decide) ho
  obtain rfl : fields = [⟨0, 1, .int8, 0⟩, ⟨4, 4, .int32, 1⟩] :=
    Except.ok.inj (hl.symm.trans (by rfl))
  obtain rfl : size = 8 := Except.ok.inj (hs.symm.trans (by rfl))
  refine ⟨_, hd, (hunpack _ _).mpr (by rfl), ?_⟩
  obtain ⟨hiff, -, hbytes⟩ := hpack (.whole .growable (.zeros 12)) [.int (-2), .int 5] rfl
  obtain ⟨n, hn⟩ := (hiff (.inl (by decide))).mpr ⟨⟨_, hrecord⟩, by decide⟩
  obtain ⟨data, hbuffer, -, hwritten, hother⟩ := hbytes _ _ hn hrecord
  refine ⟨data, hbuffer, ?_, ?_⟩
  · exact hwritten 4 ⟨1, ⟨4, 4, .int32, 1⟩, .int 5, [5, 0, 0, 0], rfl, rfl, by cbv, by decide,
      by decide⟩
  · refine hother 5 fun k hk heq => ?_
    obtain ⟨i, e, v, raw, he, hv, hraw, hlow, hhigh⟩ := hk
    obtain rfl : k = 1 := by omega
    obtain rfl | rfl : i = 0 ∨ i = 1 := by
      have hlt := (List.getElem?_eq_some_iff.mp he).1
      simp only [List.length_cons, List.length_nil] at hlt
      omega
    · cases he
      cases hv
      obtain rfl : raw = [0xFE] := Except.ok.inj (hraw.symm.trans (by cbv))
      exact absurd hhigh (by decide)
    · cases he
      exact absurd hlow (by decide)

end Format

end BinaryLayout
