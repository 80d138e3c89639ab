import BinaryLayout.Proofs.EncodableValues
import BinaryLayout.Proofs.RepeatCounts
import BinaryLayout.Proofs.Sessions

/-!
# Formats put together by hand

A compiled format has positive counts and known types only. One that is put together by hand may
have any, and packing still checks the place of each token before it plans a write there. A type
that is not in the table ends the walk, and a scalar of no positive count has no elements. But a
string is cut to its count, and below zero that cuts so many bytes off the end of the value: what
is left of it goes where the token has no place. These are the only writes that leave the place
that was checked, and the only ones that can make a buffer grow.
-/
namespace BinaryLayout

/-! ## Writes that may reach past the end -/

/-- The write has no bytes, or they go to places that exist. -/
def Write.Fits (w : Write) (length : ℕ) : Prop := w.raw = [] ∨ w.Inside length

namespace Bytes

variable {data : Bytes} {w : Write} {writes : List Write}

lemma length_splice_eq (data : Bytes) (w : Write) :
    (data.splice w.offset w.raw).length =
      max data.length (min w.offset data.length + w.raw.length) := by
  simp only [splice, List.length_append, List.length_take, List.length_drop]
  omega

lemma length_splice_eq_iff :
    (data.splice w.offset w.raw).length = data.length ↔ w.Fits data.length := by
  rw [length_splice_eq, Write.Fits, Write.Inside, ← List.length_eq_zero_iff]
  omega

lemma getElem?_splice_of_fits (h : w.Fits data.length) {j : ℕ} (hj : ¬w.Covers j) :
    (data.splice w.offset w.raw)[j]? = data[j]? := by
  obtain hempty | hin := h
  · simp [splice, hempty]
  · rw [getElem?_splice hin, if_neg hj]

lemma length_le_length_spliceAll (data : Bytes) (writes : List Write) :
    data.length ≤ (data.spliceAll writes).length := by
  induction writes generalizing data with
  | nil => exact le_refl _
  | cons w rest ih =>
    have hfirst := length_splice_eq data w
    have hrest := ih (data.splice w.offset w.raw)
    rw [spliceAll_cons]
    omega

/-- Data keeps its length under writes that all fit, and grows if one of them does not. -/
theorem length_spliceAll_eq_iff :
    (data.spliceAll writes).length = data.length ↔ ∀ w ∈ writes, w.Fits data.length := by
  induction writes generalizing data with
  | nil => exact ⟨fun _ w hw => absurd hw List.not_mem_nil, fun _ => rfl⟩
  | cons w rest ih =>
    rw [spliceAll_cons, List.forall_mem_cons, ← length_splice_eq_iff]
    have hfirst := length_splice_eq data w
    have hrest := length_le_length_spliceAll (data.splice w.offset w.raw) rest
    constructor
    · intro h
      have hkept : (data.splice w.offset w.raw).length = data.length := by omega
      exact ⟨hkept, hkept ▸ ih.mp (h.trans hkept.symm)⟩
    · rintro ⟨hkept, hfits⟩
      exact (ih.mpr (hkept.symm ▸ hfits)).trans hkept

lemma getElem?_spliceAll_of_fits (h : ∀ w ∈ writes, w.Fits data.length) {j : ℕ}
    (hj : ∀ w ∈ writes, ¬w.Covers j) : (data.spliceAll writes)[j]? = data[j]? := by
  induction writes generalizing data with
  | nil => rfl
  | cons w rest ih =>
    obtain ⟨hfirst, hrest⟩ := List.forall_mem_cons.mp h
    obtain ⟨hout, houtRest⟩ := List.forall_mem_cons.mp hj
    rw [spliceAll_cons, ih ((length_splice_eq_iff.mpr hfirst).symm ▸ hrest) houtRest,
      getElem?_splice_of_fits hfirst hout]

end Bytes

/-! ## Writes and the places of their tokens -/

/-- Each write of a plan holds the bytes of a value in one of the fields. -/
lemma exists_encode_of_planFields {order : ByteOrder} {given : ℕ} {fields : List FieldLayout}
    {values : List Value} {plan : Plan} (h : planFields order given fields values = .ok plan) :
    ∀ w ∈ plan.writes, ∃ e ∈ fields, ∃ v ∈ values, e.encode order v = .ok w.raw ∧
      w.offset = e.offset.toNat := by
  induction fields generalizing values plan with
  | nil =>
    cases h
    exact fun w hw => absurd hw List.not_mem_nil
  | cons e fields ih =>
    obtain ⟨v, rest, raw, others, rfl, hraw, ho, rfl⟩ := planFields_cons_eq_ok.mp h
    intro w hw
    cases hw with
    | head => exact ⟨e, List.mem_cons_self, v, List.mem_cons_self, hraw, rfl⟩
    | tail _ hw =>
      obtain ⟨e', he', v', hv', hrest⟩ := ih ho w hw
      exact ⟨e', List.mem_cons_of_mem _ he', v', List.mem_cons_of_mem _ hv', hrest⟩

/-- Every byte of the write goes to the place of the token. -/
def Write.StaysIn (w : Write) (p : Placement) : Prop :=
  ∀ i : ℕ, w.Covers i → p.offset ≤ i ∧ (i : ℤ) < p.stop

lemma Write.StaysIn.fits {w : Write} {p : Placement} (h : w.StaysIn p) {length : ℕ}
    (hin : p.Inside length) : w.Fits length := by
  by_cases hempty : w.raw = []
  · exact .inl hempty
  have hpos := List.length_pos_iff.mpr hempty
  -- The last byte of the write is before the end of the place.
  have hlast := (h (w.offset + w.raw.length - 1) ⟨by omega, by omega⟩).2
  have hstop := hin.2
  exact .inr (by unfold Write.Inside; omega)

lemma Write.Within.staysIn {w : Write} {p : Placement} {e : FieldLayout} (h : w.Within e)
    (h0 : 0 ≤ e.offset) (hlow : p.offset ≤ e.offset) (hhigh : e.stop ≤ p.stop) :
    w.StaysIn p := by
  intro i hi
  obtain ⟨hfirst, hlast⟩ := h.covers h0 hi
  exact ⟨hlow.trans hfirst, hlast.trans_le hhigh⟩

namespace Placement

/-- The write puts the bytes of one of the values into one of the fields of the token. -/
def Makes (p : Placement) (order : ByteOrder) (values : List Value) (w : Write) : Prop :=
  ∃ e ∈ numbered 0 p.fields, ∃ v ∈ values, e.encode order v = .ok w.raw ∧
    w.offset = e.offset.toNat

/-- A string of a negative count writes its value without so many bytes at the end, and there are
some bytes left. -/
structure Overruns (p : Placement) (values : List Value) (w : Write) : Prop where
  string : p.specifier = .string
  negative : p.count < 0
  leftover : ∃ v ∈ values, ∃ data, v.BinaryForm data ∧ -p.count < data.length ∧
    w = ⟨p.offset.toNat, data.take (data.length + p.count).toNat⟩

variable {p : Placement} {values : List Value} {w : Write}

lemma Overruns.raw_ne_nil (h : p.Overruns values w) : w.raw ≠ [] := by
  obtain ⟨v, -, data, -, hlength, rfl⟩ := h.leftover
  have hneg := h.negative
  rw [Ne, ← List.length_eq_zero_iff, List.length_take]
  omega

/-- The place of a negative count ends before it starts. -/
lemma Overruns.not_staysIn (h : p.Overruns values w) (h0 : 0 ≤ p.offset) : ¬w.StaysIn p := by
  intro hstays
  have hpos := List.length_pos_iff.mpr h.raw_ne_nil
  obtain ⟨v, -, data, -, -, rfl⟩ := h.leftover
  have hlast := (hstays p.offset.toNat ⟨le_refl _, by simp only at hpos ⊢; omega⟩).2
  have hneg := h.negative
  simp only [stop, size, h.string, Specifier.size, Nat.cast_one, mul_one] at hlast
  omega

lemma Makes.mono {order : ByteOrder} {others : List Value} (h : p.Makes order others w)
    (hsub : others ⊆ values) : p.Makes order values w := by
  obtain ⟨e, he, v, hv, hrest⟩ := h
  exact ⟨e, he, v, hsub hv, hrest⟩

lemma fields_of_nonpos (hc : p.count ≤ 0) (hs : p.specifier.kind ≠ .string) : p.fields = [] := by
  unfold fields extents
  cases hk : p.specifier.kind with
  | string => exact absurd hk hs
  | pad => rfl
  | char | int | real => simp [Int.toNat_of_nonpos hc]

/-- Below zero a width counts from the end of the value. -/
lemma sliceTo_of_neg {data : Bytes} {width : ℤ} (hw : width < 0) :
    data.sliceTo width = data.take (data.length + width).toNat := by
  rw [Bytes.sliceTo, Bytes.place, if_pos hw, add_comm]

/-- The bytes of a string of no positive count stay in its place only if there are none. -/
lemma staysIn_or_overruns_of_string (hc : p.count ≤ 0) (hs : p.specifier = .string) {v : Value}
    (hv : v ∈ values) (h : Field.encodeString v p.count = .ok w.raw)
    (hoffset : w.offset = p.offset.toNat) : w.StaysIn p ∨ p.Overruns values w := by
  obtain ⟨data, hdata, hraw⟩ := Field.encodeString_eq_ok_iff.mp h
  by_cases hleft : p.count < 0 ∧ -p.count < data.length
  · rw [sliceTo_of_neg hleft.1] at hraw
    exact .inr ⟨hs, hleft.1, v, hv, data, hdata, hleft.2, by rw [← hoffset, ← hraw]⟩
  · have hempty : w.raw.length = 0 := by
      rw [hraw, Bytes.sliceTo, List.length_take, Bytes.place]
      split <;> omega
    refine .inl fun i hi => ?_
    have hlow := hi.1
    have hhigh := hi.2
    omega

/-- The writes of a token whose place does not start below zero stay there, but for those of a
string of a negative count with bytes left. -/
theorem staysIn_or_overruns {order : ByteOrder} (h0 : 0 ≤ p.offset)
    (h : p.Makes order values w) : w.StaysIn p ∨ p.Overruns values w := by
  obtain ⟨e, he, v, hv, hencode, hoffset⟩ := h
  by_cases hc : 0 < p.count
  · obtain ⟨hshape, hlow, hhigh⟩ := field_bounds hc he
    have hwithin : w.Within e := ⟨hoffset, FieldLayout.length_of_encode_le hshape hencode⟩
    exact .inl (hwithin.staysIn (h0.trans hlow) hlow hhigh)
  by_cases hs : p.specifier.kind = .string
  swap
  · rw [fields_of_nonpos (Int.not_lt.mp hc) hs] at he
    exact absurd he List.not_mem_nil
  have hstring : p.fields = [FieldLayout.mk p.offset p.count p.specifier] := by
    simp only [fields, extents, hs, List.map_cons, List.map_nil]
  rw [hstring] at he
  obtain rfl := List.mem_singleton.mp he
  simp only [FieldLayout.encode, hs] at hencode
  exact staysIn_or_overruns_of_string (Int.not_lt.mp hc) (Specifier.eq_string hs) hv hencode
    hoffset

/-- What is planned for a token are its own writes, and the values that it leaves were given. -/
lemma makes_of_plan {order : ByteOrder} {length given : ℕ} {plan : Plan}
    (h : p.plan order length given values = .ok plan) :
    plan.rest ⊆ values ∧ ∀ w ∈ plan.writes, p.Makes order values w := by
  rw [p.plan_eq order length given 0, check] at h
  by_cases hin : p.Inside length
  swap
  · rw [if_neg hin] at h
    cases h
  rw [if_pos hin] at h
  have hfields : planFields order given (numbered 0 p.fields) values = .ok plan := h
  exact ⟨(planFields_lengths hfields).2 ▸ List.drop_subset _ _,
    exists_encode_of_planFields hfields⟩

end Placement

/-! ## Whole formats -/

/-- Each write of a walk is made for one of its tokens. -/
theorem exists_made_of_planWalk {order : ByteOrder} {length given : ℕ} {ps : List Placement}
    {values : List Value} {plan : Plan}
    (h : planWalk order length given (ps.map .ok) values = .ok plan) :
    ∃ made : List (Placement × Write), made.map Prod.snd = plan.writes ∧
      ∀ x ∈ made, x.1 ∈ ps ∧ x.1.Makes order values x.2 := by
  induction ps generalizing values plan with
  | nil =>
    cases h
    exact ⟨[], rfl, fun x hx => absurd hx List.not_mem_nil⟩
  | cons p ps ih =>
    simp only [List.map_cons, planWalk, bind, Except.bind] at h
    split at h
    · cases h
    · next first hfirst =>
      split at h
      · cases h
      · next others hothers =>
        cases h
        obtain ⟨hrest, hwrites⟩ := Placement.makes_of_plan hfirst
        obtain ⟨made, hmade, hall⟩ := ih hothers
        refine ⟨first.writes.map (p, ·) ++ made, by simp [hmade, Function.comp_def], ?_⟩
        intro x hx
        obtain hx | hx := List.mem_append.mp hx
        · obtain ⟨w, hw, rfl⟩ := List.mem_map.mp hx
          exact ⟨List.mem_cons_self, hwrites w hw⟩
        · obtain ⟨hp, hmakes⟩ := hall x hx
          exact ⟨List.mem_cons_of_mem _ hp, hmakes.mono hrest⟩

namespace Buffer

lemma writeAll_of_growable {b : Buffer} (hb : b.holding = .growable) (writes : List Write) :
    b.writeAll writes = ⟨{ b with data := b.data.spliceAll writes }, true⟩ := by
  induction writes generalizing b with
  | nil => rfl
  | cons w rest ih =>
    have hone : b.write? w = some { b with data := b.data.splice w.offset w.raw } := by
      simp only [write?, hb]
    have hrest := ih (b := { b with data := b.data.splice w.offset w.raw }) hb
    simp only [writeAll, hone, hrest, Bytes.spliceAll_cons]

end Buffer

namespace Format

/-- Packing into a growable buffer is refused as a whole, or the plan is carried out. -/
lemma packInto_of_growable (f : Format) {b : Buffer} (hb : b.holding = .growable) (offset : ℤ)
    (values : List Value) :
    (∃ fault, f.packInto b offset values = ⟨b, 0, .error fault⟩) ∨
      ∃ plan, f.plan b.data.length offset values = .ok plan ∧ f.packInto b offset values =
        ⟨{ b with data := b.data.spliceAll plan.writes }, plan.rest.length,
          .ok plan.writes.length⟩ := by
  have hwritable : b.holding.readOnly = false := by rw [hb]; rfl
  cases hplan : f.plan b.data.length offset values with
  | error fault =>
    exact .inl ⟨fault, by simp only [packInto, hwritable, hplan, Bool.false_eq_true, if_false]⟩
  | ok plan =>
    refine .inr ⟨plan, rfl, ?_⟩
    simp only [packInto, hwritable, hplan, carryOut, Buffer.writeAll_of_growable hb,
      Bool.false_eq_true, if_false, if_true]

/-- A format is packed as it is, whatever its counts and types are. When packing into a growable
buffer is refused, nothing changes. Otherwise every token has passed its check, each write is
made for one of the tokens and stays in its place unless it overruns it, and the buffer keeps its
length unless such a write reaches past the end. So only a string of a negative count can change
the length, or a byte outside the places that were checked. -/
theorem packInto_checked (f : Format) {b : Buffer} (hb : b.holding = .growable) (offset : ℤ)
    (values : List Value) :
    (∀ session, ((Session.packInto (.format f) (.buffer b) offset values).run session).1 =
      Session.targetOf (.ok f) b offset values) ∧
    (∀ fault, (f.packInto b offset values).outcome = .error fault →
      (f.packInto b offset values).buffer = b) ∧
    ∀ n, (f.packInto b offset values).outcome = .ok n →
      ∃ (ps : List Placement) (made : List (Placement × Write)) (data : Bytes),
        f.placements offset = .ok ps ∧ (∀ p ∈ ps, p.Inside b.data.length) ∧ made.length = n ∧
        data = b.data.spliceAll (made.map Prod.snd) ∧
        (f.packInto b offset values).buffer = { b with data := data } ∧
        (∀ x ∈ made, x.1 ∈ ps ∧ x.1.Makes f.order values x.2 ∧
          (x.2.StaysIn x.1 ↔ ¬x.1.Overruns values x.2)) ∧
        (data.length = b.data.length ↔
          ∀ x ∈ made, x.1.Overruns values x.2 → x.2.Inside b.data.length) ∧
        ((∀ x ∈ made, ¬x.1.Overruns values x.2) → data.length = b.data.length ∧
          ∀ j : ℕ, (∀ p ∈ ps, ¬(p.offset ≤ j ∧ (j : ℤ) < p.stop)) → data[j]? = b.data[j]?) := by
  refine ⟨fun session => rfl, ?_⟩
  obtain ⟨fault, hpacked⟩ | ⟨plan, hplan, hpacked⟩ := f.packInto_of_growable hb offset values
  · rw [hpacked]
    exact ⟨fun _ _ => rfl, nofun⟩
  rw [hpacked]
  refine ⟨nofun, fun n hn => ?_⟩
  obtain rfl := Except.ok.inj hn
  unfold Format.plan at hplan
  obtain ⟨ps, hwalk⟩ := exists_of_planWalk hplan
  rw [hwalk] at hplan
  have hin := inside_of_planWalk hplan
  obtain ⟨made, hmade, hall⟩ := exists_made_of_planWalk hplan
  have hstays : ∀ x ∈ made, (x.2.StaysIn x.1 ↔ ¬x.1.Overruns values x.2) := by
    intro x hx
    obtain ⟨hp, hmakes⟩ := hall x hx
    have h0 := (hin x.1 hp).1
    exact ⟨fun hs ho => ho.not_staysIn h0 hs,
      (Placement.staysIn_or_overruns h0 hmakes).resolve_right⟩
  have hfits : ∀ x ∈ made, ¬x.1.Overruns values x.2 → x.2.Fits b.data.length := fun x hx ho =>
    ((hstays x hx).mpr ho).fits (hin x.1 (hall x hx).1)
  have hlength : (b.data.spliceAll (made.map Prod.snd)).length = b.data.length ↔
      ∀ x ∈ made, x.1.Overruns values x.2 → x.2.Inside b.data.length := by
    rw [Bytes.length_spliceAll_eq_iff, List.forall_mem_map]
    refine forall₂_congr fun x hx => ⟨fun h ho => h.resolve_left ho.raw_ne_nil, fun h => ?_⟩
    by_cases ho : x.1.Overruns values x.2
    · exact .inr (h ho)
    · exact hfits x hx ho
  refine ⟨ps, made, _, placements_of_walk hwalk, hin, ?_, rfl, by rw [hmade],
    fun x hx => ⟨(hall x hx).1, (hall x hx).2, hstays x hx⟩, hlength,
    fun hnone => ⟨?_, fun j hj => ?_⟩⟩
  · rw [← hmade, List.length_map]
  · exact hlength.mpr fun x hx ho => absurd ho (hnone x hx)
  · refine Bytes.getElem?_spliceAll_of_fits (List.forall_mem_map.mpr fun x hx =>
      hfits x hx (hnone x hx)) (List.forall_mem_map.mpr fun x hx hcov => ?_)
    exact hj x.1 (hall x hx).1 ((hstays x hx).mpr (hnone x hx) j hcov)

/-- A count of minus one leaves no place, but two of three bytes are written all the same, behind
the end of the buffer. Padding of minus one byte steps back, and both numbers stay in the
buffer. -/
theorem packInto_checked_cut :
    (∃ (p : Placement) (w : Write) (data : Bytes), p.Inside 2 ∧ ¬w.StaysIn p ∧
      (Format.packInto ⟨.littleEndian, [⟨-1, .known .string⟩], "s"⟩ (.whole .growable [0, 0]) 2
        [.text [0x41, 0x42, 0x43]]).buffer = .whole .growable data ∧ data.length ≠ 2) ∧
    ∃ data : Bytes,
      (Format.packInto ⟨.littleEndian, [⟨1, .known .int16⟩, ⟨-1, .known .pad⟩, ⟨1, .known .uint8⟩],
        "hxB"⟩ (.whole .growable [0, 0]) 0 [.int 1, .int 2]).buffer = .whole .growable data ∧
      data.length = 2 := by
  constructor
  · have hn : (Format.packInto ⟨.littleEndian, [⟨-1, .known .string⟩], "s"⟩
        (.whole .growable [0, 0]) 2 [.text [0x41, 0x42, 0x43]]).outcome = .ok 1 := by cbv
    have hgrown : (Format.packInto ⟨.littleEndian, [⟨-1, .known .string⟩], "s"⟩
        (.whole .growable [0, 0]) 2 [.text [0x41, 0x42, 0x43]]).buffer =
          .whole .growable [0, 0, 0x41, 0x42] := by cbv
    obtain ⟨-, -, hok⟩ := packInto_checked ⟨.littleEndian, [⟨-1, .known .string⟩], "s"⟩
      (b := .whole .growable [0, 0]) rfl 2 [.text [0x41, 0x42, 0x43]]
    obtain ⟨ps, made, data, -, hin, -, -, hbuffer, hmade, hlength, -⟩ := hok 1 hn
    obtain rfl : data = [0, 0, 0x41, 0x42] := (Buffer.mk.inj (hbuffer.symm.trans hgrown)).2.2.1
    obtain ⟨x, hx, hrest⟩ := not_forall₂.mp fun h => absurd (hlength.mpr h) (by decide)
    obtain ⟨hp, -, hstays⟩ := hmade x hx
    obtain ⟨hoverruns, -⟩ := Classical.not_imp.mp hrest
    exact ⟨x.1, x.2, _, hin x.1 hp, fun hs => hstays.mp hs hoverruns, hgrown, by decide⟩
  · have hn : (Format.packInto ⟨.littleEndian, [⟨1, .known .int16⟩, ⟨-1, .known .pad⟩,
        ⟨1, .known .uint8⟩], "hxB"⟩ (.whole .growable [0, 0]) 0 [.int 1, .int 2]).outcome =
          .ok 2 := by cbv
    obtain ⟨-, -, hok⟩ := packInto_checked ⟨.littleEndian, [⟨1, .known .int16⟩,
      ⟨-1, .known .pad⟩, ⟨1, .known .uint8⟩], "hxB"⟩ (b := .whole .growable [0, 0]) rfl 0
      [.int 1, .int 2]
    obtain ⟨ps, made, data, -, -, -, -, hbuffer, -, -, hkept⟩ := hok 2 hn
    refine ⟨data, hbuffer, (hkept fun x hx ho => ?_).1⟩
    -- Neither value is a string.
    obtain ⟨v, hv, raw, hraw, -⟩ := ho.leftover
    simp only [List.mem_cons, List.not_mem_nil, or_false] at hv
    rcases hv with rfl | rfl <;> exact hraw

end Format

end BinaryLayout
