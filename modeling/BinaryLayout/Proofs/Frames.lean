import BinaryLayout.Proofs.Records
import Mathlib.Data.List.Permutation
import Mathlib.Algebra.Module.Submodule.Lattice

/-!
# What packing leaves alone

Every value goes to the start of its field. Whatever it does not fill there keeps its old bytes,
and so does everything between the fields: padding, alignment gaps, and what is before and behind
the record. The fields are in order, so the writes can be followed one by one: each is made after
the ones before its field and is not touched by the ones behind it.
-/
namespace BinaryLayout

namespace FieldLayout

variable {e : FieldLayout} {data other : Bytes}

lemma offset_le_stop (h : 0 < e.size) : e.offset ≤ e.stop := by
  unfold stop
  omega

lemma length_bytes (h0 : 0 ≤ e.offset) (hsize : 0 < e.size) (hstop : e.stop ≤ data.length) :
    ((e.bytes data).length : ℤ) = e.size := by
  unfold bytes
  rw [Bytes.length_slice h0 (offset_le_stop hsize) hstop]
  unfold stop
  omega

lemma getElem?_bytes (h0 : 0 ≤ e.offset) (hsize : 0 < e.size) (hstop : e.stop ≤ data.length)
    {i : ℕ} (hi : e.Covers i) : (e.bytes data)[i - e.offset.toNat]? = data[i]? := by
  obtain ⟨hlow, hhigh⟩ := hi
  unfold bytes
  rw [Bytes.getElem?_slice h0 (offset_le_stop hsize) hstop, if_pos (by omega)]
  congr 1
  omega

lemma bytes_congr (h0 : 0 ≤ e.offset) (hsize : 0 < e.size) (hstop : e.stop ≤ data.length)
    (hl : other.length = data.length) (h : ∀ i : ℕ, e.Covers i → other[i]? = data[i]?) :
    e.bytes other = e.bytes data :=
  Bytes.slice_congr h0 (offset_le_stop hsize) hstop hl fun i hlow hhigh => h i ⟨hlow, hhigh⟩

lemma Before.not_covers {e' : FieldLayout} (h : e.Before e') {i : ℕ} (hi : e.Covers i) :
    ¬e'.Covers i := by
  intro hi'
  have hle : e.stop ≤ e'.offset := h
  have hlow := hi'.1
  have hhigh := hi.2
  omega

/-- A field that bytes are written to starts with them and goes on as before. -/
lemma bytes_splice (h0 : 0 ≤ e.offset) (hsize : 0 < e.size) (hstop : e.stop ≤ data.length)
    {raw : Bytes} (hlen : (raw.length : ℤ) ≤ e.size) :
    e.bytes (data.splice e.offset.toNat raw) = raw ++ (e.bytes data).drop raw.length := by
  have hw : Write.Inside ⟨e.offset.toNat, raw⟩ data.length := by
    unfold Write.Inside
    unfold stop at hstop
    simp only
    omega
  have hlength := Bytes.length_splice_inside hw
  have hle := offset_le_stop hsize
  unfold bytes
  apply List.ext_getElem?
  intro i
  rw [Bytes.getElem?_slice h0 hle (by simp only at hlength; omega),
    Bytes.getElem?_splice (w := ⟨e.offset.toNat, raw⟩) hw]
  have hwidth : (e.stop - e.offset).toNat = e.size.toNat := by
    unfold stop
    omega
  by_cases hraw : i < raw.length
  · have hcovers : Write.Covers ⟨e.offset.toNat, raw⟩ (e.offset.toNat + i) :=
      ⟨Nat.le_add_right _ _, Nat.add_lt_add_left hraw _⟩
    rw [List.getElem?_append_left hraw, if_pos (by omega), if_pos hcovers]
    exact congrArg (raw[·]?) (Nat.add_sub_cancel_left _ _)
  · have hcovers : ¬Write.Covers ⟨e.offset.toNat, raw⟩ (e.offset.toNat + i) :=
      fun hc => hraw (Nat.lt_of_add_lt_add_left hc.2)
    rw [List.getElem?_append_right (by omega), if_neg hcovers, List.getElem?_drop,
      Bytes.getElem?_slice h0 hle hstop, Nat.add_sub_cancel' (by omega)]

/-- A field of zeros goes on with zeros. -/
lemma drop_bytes_of_zero (h0 : 0 ≤ e.offset) (hsize : 0 < e.size) (hstop : e.stop ≤ data.length)
    (n : ℕ) (hz : ∀ i : ℕ, e.Covers i → data[i]? = some 0) :
    (e.bytes data).drop n = Bytes.zeros (e.size.toNat - n) := by
  have hwidth : (e.stop - e.offset).toNat = e.size.toNat := by
    unfold stop
    omega
  unfold bytes
  apply List.ext_getElem?
  intro i
  rw [List.getElem?_drop, Bytes.getElem?_slice h0 (offset_le_stop hsize) hstop, hwidth, Bytes.zeros,
    List.getElem?_replicate]
  by_cases hi : n + i < e.size.toNat
  · have hin : e.Covers (e.offset.toNat + (n + i)) := by
      unfold Covers stop
      omega
    rw [if_pos hi, if_pos (by omega), hz _ hin]
  · rw [if_neg hi, if_neg (by omega)]

end FieldLayout

/-- What packing values into fields makes of some data. -/
structure Framed (order : ByteOrder) (fields : List FieldLayout) (values : List Value)
    (old new : Bytes) : Prop where
  length : new.length = old.length
  /-- A field holds its value and, behind a string that does not fill it, its old bytes. -/
  field : ∀ (i : ℕ) (e : FieldLayout), fields[i]? = some e → ∃ v raw, values[i]? = some v ∧
    e.encode order v = .ok raw ∧ (raw.length : ℤ) ≤ e.size ∧
    (e.specifier ≠ .string → (raw.length : ℤ) = e.size) ∧
    e.bytes new = raw ++ (e.bytes old).drop raw.length
  elsewhere : ∀ j : ℕ, (∀ e ∈ fields, ¬e.Covers j) → new[j]? = old[j]?

/-- Writes that are planned for ordered fields change only these fields. -/
theorem framed_of_planFields {order : ByteOrder} {given : ℕ} {fields : List FieldLayout}
    {values : List Value} {data : Bytes} {plan : Plan}
    (hs : ∀ e ∈ fields, e.Shaped ∧ 0 ≤ e.offset ∧ e.stop ≤ data.length)
    (hp : fields.Pairwise FieldLayout.Before)
    (h : planFields order given fields values = .ok plan) :
    Framed order fields values data (data.spliceAll plan.writes) := by
  induction fields generalizing values data plan with
  | nil =>
    cases h
    exact ⟨rfl, fun i e he => (by cases he), fun j _ => rfl⟩
  | cons e fields ih =>
    obtain ⟨v, rest, raw, others, rfl, hraw, ho, rfl⟩ := planFields_cons_eq_ok.mp h
    obtain ⟨hshape, h0, hstop⟩ := hs e List.mem_cons_self
    obtain ⟨hbefore, hp⟩ := List.pairwise_cons.mp hp
    have hlen := FieldLayout.length_of_encode_le hshape hraw
    have hwithin : Write.Within ⟨e.offset.toNat, raw⟩ e := ⟨rfl, hlen⟩
    have hinside := hwithin.inside h0 hstop
    have hlength := Bytes.length_splice_inside hinside
    have hrest : Framed order fields rest (data.splice e.offset.toNat raw)
        ((data.splice e.offset.toNat raw).spliceAll others.writes) :=
      ih (fun e' he' => hlength.symm ▸ hs e' (List.mem_cons_of_mem _ he')) hp ho
    -- Outside its own field the first write changes nothing.
    have hfirst : ∀ j : ℕ, ¬e.Covers j → (data.splice e.offset.toNat raw)[j]? = data[j]? := by
      intro j hj
      rw [Bytes.getElem?_splice hinside, if_neg fun hc => hj (hwithin.covers h0 hc)]
    have happart : ∀ e' ∈ fields, ∀ j : ℕ, e.Covers j → ¬e'.Covers j :=
      fun e' he' j hj => (hbefore e' he').not_covers hj
    refine ⟨hrest.length.trans hlength, ?_, ?_⟩
    · intro i e' he'
      cases i with
      | zero =>
        cases he'
        refine ⟨v, raw, rfl, hraw, hlen, fun hne => ?_, ?_⟩
        · exact FieldLayout.length_of_encode hshape (fun hk => hne (Specifier.eq_string hk)) hraw
        · rw [Bytes.spliceAll_cons, ← FieldLayout.bytes_splice h0 hshape.positive hstop hlen]
          refine FieldLayout.bytes_congr h0 hshape.positive (by rw [hlength]; exact hstop)
            hrest.length fun j hj => ?_
          exact hrest.elsewhere j fun e' he' => happart e' he' j hj
      | succ i =>
        have hmem := List.mem_of_getElem? (l := fields) he'
        obtain ⟨v', raw', hv', hraw', hle', heq', hbytes'⟩ := hrest.field i e' he'
        obtain ⟨hshape', h0', hstop'⟩ := hs e' (List.mem_cons_of_mem _ hmem)
        refine ⟨v', raw', hv', hraw', hle', heq', ?_⟩
        rw [Bytes.spliceAll_cons, hbytes', FieldLayout.bytes_congr h0' hshape'.positive hstop'
          hlength fun j hj => hfirst j fun hc => happart e' hmem j hc hj]
    · intro j hj
      rw [Bytes.spliceAll_cons,
        hrest.elsewhere j fun e' he' => hj e' (List.mem_cons_of_mem _ he'),
        hfirst j (hj e List.mem_cons_self)]

namespace Format

variable {f : Format} {offset stop : ℤ} {ps : List Placement}

/-- A record that is planned changes only its fields. -/
theorem framed_of_plan (hw : f.walk offset = ps.map .ok) (hc : Chain offset ps stop)
    {data : Bytes} {values : List Value} {plan : Plan}
    (h : f.plan data.length offset values = .ok plan) :
    Framed f.order (fieldsOf 0 ps) values data (data.spliceAll plan.writes) := by
  obtain ⟨hin, hplan⟩ := (plan_eq_ok_iff hw).mp h
  refine framed_of_planFields (fun e he => ?_) (hc.pairwise_fieldsOf 0) hplan
  exact ⟨(hc.field_bounds he).1, hc.field_inside hin he⟩

/-- Packing that succeeds puts each value into its field, at the place of its token, and leaves
every other byte as it was: in string fields behind the text, in padding and gaps, before and
behind the record, and in the storage around the buffer. -/
theorem packInto_framed {d : Text} (hd : Descriptor.compile d = .ok f) {b : Buffer}
    {values : List Value} {n : ℕ} (h : (f.packInto b offset values).outcome = .ok n) :
    ∃ ps data, f.placements offset = .ok ps ∧
      (f.packInto b offset values).buffer = { b with data := data } ∧
      Framed f.order (fieldsOf 0 ps) values b.data data ∧
      (∀ p ∈ ps, p.specifier = .pad → ∀ j : ℕ, p.offset ≤ j → (j : ℤ) < p.stop →
        data[j]? = b.data[j]?) ∧
      ∀ j : ℕ, (j < offset ∨ ∀ p ∈ ps, p.stop ≤ j) → data[j]? = b.data[j]? := by
  obtain ⟨ps, stop, hw, hc⟩ := (Descriptor.wellFormed_of_compile hd).exists_chain offset
  obtain ⟨hb, plan, hplan⟩ := plan_of_packInto h
  have hframe := framed_of_plan hw hc hplan
  refine ⟨ps, _, placements_of_walk hw, ?_, hframe, ?_, ?_⟩
  · rw [packInto_of_plan hw hc hb hplan]
  · intro p hp hpad j hlow hhigh
    refine hframe.elsewhere j fun e he hcov => ?_
    have h1 := hcov.1
    have h2 := hcov.2
    have := hc.before_or_behind_pad he hp (by rw [hpad]; rfl)
    omega
  · intro j hj
    refine hframe.elsewhere j fun e he hcov => ?_
    have h1 := hcov.1
    have h2 := hcov.2
    rcases hj with hbefore | hbehind
    · have := (hc.field_bounds he).2.1
      omega
    · obtain ⟨p, hp, k, hk⟩ := Chain.exists_of_mem_fieldsOf he
      have hstop := (p.field_bounds (hc.bounds hp).2.1 hk).2.2
      have := hbehind p hp
      omega

/-- In a window, a text that does not fill its field leaves the last byte of it, and the number
before it leaves the gap. -/
theorem packInto_framed_window :
    ∃ f, Descriptor.compile "@bi3s" = .ok f ∧
      (f.packInto (.window [9, 9, 7, 7, 7, 7, 7, 7, 7, 7, 7, 7, 7, 9] 2 13 false) 1
        [.int (-2), .int 5, .text [0xE9]]).outcome = .ok 3 ∧
      ∃ data, (f.packInto (.window [9, 9, 7, 7, 7, 7, 7, 7, 7, 7, 7, 7, 7, 9] 2 13 false) 1
          [.int (-2), .int 5, .text [0xE9]]).buffer = ⟨.view false, [9, 9], data, [9]⟩ ∧
        data[2]? = some 7 ∧ data.slice 8 11 = [0xC3, 0xA9, 7] := by
  have hd : Descriptor.compile "@bi3s" = .ok ⟨.nativeAligned,
      [⟨1, .known .int8⟩, ⟨1, .known .int32⟩, ⟨3, .known .string⟩], "@bi3s"⟩ := by cbv
  have hn : (Format.packInto ⟨.nativeAligned,
      [⟨1, .known .int8⟩, ⟨1, .known .int32⟩, ⟨3, .known .string⟩], "@bi3s"⟩
      (.window [9, 9, 7, 7, 7, 7, 7, 7, 7, 7, 7, 7, 7, 9] 2 13 false) 1
      [.int (-2), .int 5, .text [0xE9]]).outcome = .ok 3 := by cbv
  obtain ⟨ps, data, hps, hbuffer, hframe, -, -⟩ := packInto_framed hd hn
  obtain rfl : ps = [⟨1, 1, .int8⟩, ⟨4, 1, .int32⟩, ⟨8, 3, .string⟩] :=
    Except.ok.inj (hps.symm.trans (by rfl))
  refine ⟨_, hd, hn, data, hbuffer, ?_, ?_⟩
  · refine (hframe.elsewhere 2 fun e he hcov => ?_).trans rfl
    have hfields : e ∈ [FieldLayout.mk 1 1 .int8 0, ⟨4, 4, .int32, 1⟩, ⟨8, 3, .string, 2⟩] := he
    simp only [List.mem_cons, List.not_mem_nil, or_false] at hfields
    rcases hfields with rfl | rfl | rfl
    · exact absurd hcov.2 (by decide)
    · exact absurd hcov.1 (by decide)
    · exact absurd hcov.1 (by decide)
  · obtain ⟨v, raw, hv, hraw, -, -, hbytes⟩ := hframe.field 2 ⟨8, 3, .string, 2⟩ rfl
    cases hv
    obtain rfl : raw = [0xC3, 0xA9] := Except.ok.inj (hraw.symm.trans (by cbv))
    exact hbytes

end Format

end BinaryLayout
