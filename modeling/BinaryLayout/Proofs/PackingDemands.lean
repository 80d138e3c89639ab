import BinaryLayout.Proofs.EncodableValues
import BinaryLayout.Proofs.LayoutAgreement
import BinaryLayout.Proofs.SizeBounds

/-!
# What packing demands

Packing a record asks for one thing after the other: for each token that it lies inside the
buffer, and then for each of its fields a value that the field takes. The walk carries a cursor
over the values, but what it asks for is fixed by the format and the offset alone. So packing
ends well when every demand is met, and otherwise with the refusal of the first one that is not.
-/
namespace BinaryLayout

open Fault

/-! ## Demands -/

/-- What packing asks for at some point: room for a token, or a value for a field. -/
inductive Demand where
  | room (p : Placement)
  | value (e : FieldLayout)

/-- The demands of tokens whose fields are numbered from `k` on: for each token its room, and
then its values. -/
def demandsOf (k : ℕ) : List Placement → List Demand
  | [] => []
  | p :: ps =>
    .room p :: ((numbered k p.fields).map .value ++ demandsOf (k + p.fields.length) ps)

namespace Demand

/-- The token is inside the buffer, or the value is there and has bytes in the field. -/
def Met (length : ℕ) (values : List Value) : Demand → Prop
  | .room p => p.Inside length
  | .value e => ∃ v, values[e.index]? = some v ∧ e.Takes v

/-- What a demand is refused with that is not met. Room is refused with the place of the token,
as far as a message can show it. -/
inductive Refused (order : ByteOrder) (length : ℕ) (values : List Value) :
    Demand → Fault → Prop where
  | outside {p : Placement} : ¬p.Inside length →
      Numeral.Showable p.offset ∧ Numeral.Showable p.size →
      Refused order length values (.room p) (.bufferTooSmall p.offset p.size length)
  | unshowable {p : Placement} : ¬p.Inside length →
      ¬(Numeral.Showable p.offset ∧ Numeral.Showable p.size) →
      Refused order length values (.room p) (.unshowable none)
  | missing {e : FieldLayout} : values[e.index]? = none →
      Refused order length values (.value e) (.insufficientValues (values.length + 1) values.length)
  | unfit {e : FieldLayout} {v : Value} {fault : Fault} : values[e.index]? = some v →
      ¬e.Takes v → Unfit v fault → e.encode order v = .error fault →
      Refused order length values (.value e) fault

/-- The writes of one demand. -/
def meet (order : ByteOrder) (length : ℕ) (values : List Value) :
    Demand → Except Fault (List Write)
  | .room p => (p.check length).map fun _ => []
  | .value e =>
    match values[e.index]? with
    | none => .error (.insufficientValues (values.length + 1) values.length)
    | some v => (e.encode order v).map fun raw => [⟨e.offset.toNat, raw⟩]

variable {order : ByteOrder} {length : ℕ} {values : List Value}

lemma meet_value_of_none {e : FieldLayout} (h : values[e.index]? = none) :
    (value e).meet order length values =
      .error (.insufficientValues (values.length + 1) values.length) := by
  simp only [meet, h]

lemma meet_value_of_some {e : FieldLayout} {v : Value} (h : values[e.index]? = some v) :
    (value e).meet order length values =
      (e.encode order v).map fun raw => [⟨e.offset.toNat, raw⟩] := by
  simp only [meet, h]

lemma exists_meet_iff {d : Demand} :
    (∃ writes, d.meet order length values = .ok writes) ↔ d.Met length values := by
  cases d with
  | room p =>
    simp only [meet, Met, Placement.check]
    split <;> simp_all [Except.map]
  | value e =>
    cases hv : values[e.index]? with
    | none => simp [meet_value_of_none hv, Met, hv]
    | some v =>
      rw [meet_value_of_some hv]
      simp only [Met, hv, Option.some.injEq, exists_eq_left',
        ← @FieldLayout.exists_encode_iff e v order]
      cases e.encode order v <;> simp [Except.map]

/-- A token is refused for its room as far as a message can show where it is. -/
lemma meet_room_eq_error_iff {p : Placement} {fault : Fault} :
    (room p).meet order length values = .error fault ↔
      (room p).Refused order length values fault := by
  simp only [meet, Placement.check]
  by_cases hin : p.Inside length
  · rw [if_pos hin]
    constructor
    · rintro ⟨⟩
    · rintro (⟨hout, -⟩ | ⟨hout, -⟩) <;> exact absurd hin hout
  by_cases hshow : Numeral.Showable p.offset ∧ Numeral.Showable p.size
  · rw [if_neg hin, limited_bufferTooSmall hshow]
    constructor
    · rintro ⟨⟩
      exact .outside hin hshow
    · rintro (⟨-, -⟩ | ⟨-, hhidden⟩)
      · rfl
      · exact absurd hshow hhidden
  · rw [if_neg hin, limited_bufferTooSmall_of_not hshow]
    constructor
    · rintro ⟨⟩
      exact .unshowable hin hshow
    · rintro (⟨-, hshown⟩ | ⟨-, -⟩)
      · exact absurd hshown hshow
      · rfl

/-- A field is refused for want of a value, or because it does not take a plain one. -/
lemma meet_value_eq_error_iff (hvalues : ∀ v ∈ values, v.Plain) {e : FieldLayout}
    (he : e.specifier.kind ≠ .pad) {fault : Fault} :
    (value e).meet order length values = .error fault ↔
      (value e).Refused order length values fault := by
  cases hv : values[e.index]? with
  | none =>
    rw [meet_value_of_none hv]
    constructor
    · rintro ⟨⟩
      exact .missing hv
    · rintro (_ | _ | _ | ⟨hsome, -, -, -⟩)
      · rfl
      · cases hv.symm.trans hsome
  | some v =>
    have hplain := hvalues v (List.mem_of_getElem? hv)
    rw [meet_value_of_some hv]
    constructor
    · intro h
      cases hencode : e.encode order v with
      | ok raw => rw [hencode] at h; cases h
      | error other =>
        rw [hencode] at h
        obtain rfl : other = fault := Except.error.inj h
        refine .unfit hv (fun htakes => ?_) (FieldLayout.unfit_of_encode he hplain hencode) hencode
        obtain ⟨raw, hraw⟩ := FieldLayout.exists_encode_iff.mpr htakes
        cases hraw.symm.trans hencode
    · rintro (_ | _ | hnone | ⟨hsome, -, -, hencode⟩)
      · cases hv.symm.trans hnone
      · obtain rfl := Option.some.inj (hv.symm.trans hsome)
        rw [hencode]
        rfl

/-- The demand asks for no value of padding. -/
def Carries : Demand → Prop
  | .room _ => True
  | .value e => e.specifier.kind ≠ .pad

lemma meet_eq_error_iff (hvalues : ∀ v ∈ values, v.Plain) {d : Demand} (hd : d.Carries)
    {fault : Fault} :
    d.meet order length values = .error fault ↔ d.Refused order length values fault := by
  cases d with
  | room p => exact meet_room_eq_error_iff
  | value e => exact meet_value_eq_error_iff hvalues hd

end Demand

/-! ## Planning as meeting demands -/

lemma index_of_mem_fields {p : Placement} {field : ℕ → FieldLayout} (h : field ∈ p.fields)
    (k : ℕ) : (field k).index = k := by
  obtain ⟨x, -, rfl⟩ := List.mem_map.mp h
  rfl

/-- Planning fields from some value on is meeting their demands. -/
lemma planFields_eq_mapM (order : ByteOrder) (length : ℕ) (values : List Value)
    {fields : List (ℕ → FieldLayout)} (hi : ∀ field ∈ fields, ∀ k, (field k).index = k) (k : ℕ) :
    planFields order values.length (numbered k fields) (values.drop k) =
      (((numbered k fields).map .value).mapM (Demand.meet order length values)).map
        fun writes => ⟨writes.flatten, values.drop (k + fields.length)⟩ := by
  -- Dropping `k` values leaves in front the one that field `k` asks for.
  induction fields generalizing k with
  | nil => rfl
  | cons field fields ih =>
    have hindex : (field k).index = k := hi field List.mem_cons_self k
    have htail := ih (fun other hother => hi other (List.mem_cons_of_mem _ hother)) (k + 1)
    have hlength : k + (field :: fields).length = k + 1 + fields.length := by
      rw [List.length_cons]
      omega
    rw [numbered_cons, List.map_cons, List.mapM_cons, hlength]
    cases hv : values[(field k).index]? with
    | none =>
      have hdrop : values.drop k = [] := by
        rw [hindex] at hv
        exact List.drop_eq_nil_of_le (List.getElem?_eq_none_iff.mp hv)
      rw [hdrop, Demand.meet_value_of_none hv]
      rfl
    | some v =>
      have hdrop : values.drop k = v :: values.drop (k + 1) := by
        rw [hindex] at hv
        obtain ⟨hk, rfl⟩ := List.getElem?_eq_some_iff.mp hv
        exact List.drop_eq_getElem_cons hk
      rw [hdrop, planFields_cons_cons, htail, Demand.meet_value_of_some hv]
      cases (field k).encode order v with
      | error fault => rfl
      | ok raw =>
        cases ((numbered (k + 1) fields).map Demand.value).mapM
          (Demand.meet order length values) <;> rfl

/-- Planning a walk from some value on is meeting the demands of its tokens. -/
lemma planWalk_eq_mapM (order : ByteOrder) (length : ℕ) (values : List Value) (k : ℕ)
    (ps : List Placement) :
    planWalk order length values.length (ps.map .ok) (values.drop k) =
      ((demandsOf k ps).mapM (Demand.meet order length values)).map
        fun writes => ⟨writes.flatten, values.drop (k + (fieldsOf k ps).length)⟩ := by
  induction ps generalizing k with
  | nil => rfl
  | cons p ps ih =>
    have hfields := planFields_eq_mapM order length values
      (fun field hfield => index_of_mem_fields (p := p) hfield) k
    rw [demandsOf, List.mapM_cons, List.mapM_append, fieldsOf_cons, List.length_append,
      length_numbered, ← Nat.add_assoc]
    simp only [List.map_cons, planWalk, bind, Except.bind, pure, Except.pure,
      p.plan_eq order length values.length k, hfields, Demand.meet]
    cases p.check length with
    | error fault => rfl
    | ok _ =>
      simp only [Except.map]
      cases ((numbered k p.fields).map Demand.value).mapM (Demand.meet order length values) with
      | error fault => rfl
      | ok first =>
        simp only [ih (k + p.fields.length)]
        cases (demandsOf (k + p.fields.length) ps).mapM (Demand.meet order length values) with
        | error fault => rfl
        | ok others => simp [Except.map]

/-! ## What is demanded -/

lemma mem_fieldsOf_of_value {k : ℕ} {ps : List Placement} {e : FieldLayout}
    (h : .value e ∈ demandsOf k ps) : e ∈ fieldsOf k ps := by
  induction ps generalizing k with
  | nil => cases h
  | cons p ps ih =>
    rw [fieldsOf_cons, List.mem_append]
    obtain ⟨⟩ | ⟨_, htail⟩ := h
    obtain hhead | hrest := List.mem_append.mp htail
    · obtain ⟨e', he', hvalue⟩ := List.mem_map.mp hhead
      exact .inl (Demand.value.inj hvalue ▸ he')
    · exact .inr (ih hrest)

lemma Chain.carries {start stop : ℤ} {ps : List Placement} (h : Chain start ps stop) {k : ℕ}
    {d : Demand} (hd : d ∈ demandsOf k ps) : d.Carries := by
  cases d with
  | room p => trivial
  | value e => exact (h.field_bounds (mem_fieldsOf_of_value hd)).1.carries

lemma fitting_iff {order : ByteOrder} {ps : List Placement} {values : List Value} :
    Fitting order (fieldsOf 0 ps) values ↔
      ∀ e ∈ fieldsOf 0 ps, ∀ v, values[e.index]? = some v → e.Takes v := by
  simp only [Fitting, FieldLayout.exists_encode_iff]
  constructor
  · exact fun h e he v hv => h e.index e v (getElem?_index_of_mem_fieldsOf he) hv
  · intro h i e v he hv
    refine h e (List.mem_of_getElem? he) v ?_
    rw [index_of_getElem?_fieldsOf he, Nat.zero_add, hv]

namespace Format

variable {f : Format} {offset stop : ℤ} {ps : List Placement}

lemma plan_eq_mapM (hw : f.walk offset = ps.map .ok) (length : ℕ) (values : List Value) :
    f.plan length offset values =
      ((demandsOf 0 ps).mapM (Demand.meet f.order length values)).map
        fun writes => ⟨writes.flatten, values.drop (fieldsOf 0 ps).length⟩ := by
  have h := planWalk_eq_mapM f.order length values 0 ps
  rwa [List.drop_zero, Nat.zero_add, ← hw] at h

/-- A plan of plain values is refused for the first demand that is not met. -/
lemma plan_eq_error_iff (hw : f.walk offset = ps.map .ok) (hc : Chain offset ps stop)
    {length : ℕ} {values : List Value} (hvalues : ∀ v ∈ values, v.Plain) {fault : Fault} :
    f.plan length offset values = .error fault ↔
      ∃ before d after, demandsOf 0 ps = before ++ d :: after ∧
        (∀ d' ∈ before, d'.Met length values) ∧ d.Refused f.order length values fault := by
  have hmap : f.plan length offset values = .error fault ↔
      (demandsOf 0 ps).mapM (Demand.meet f.order length values) = .error fault := by
    rw [plan_eq_mapM hw]
    cases (demandsOf 0 ps).mapM (Demand.meet f.order length values) <;> simp [Except.map]
  rw [hmap, mapM_eq_error_iff]
  refine exists_congr fun before => exists_congr fun d => exists_congr fun after =>
    and_congr_right fun hdemands => ?_
  have hcarries : d.Carries := hc.carries (hdemands ▸ List.mem_append_right _ List.mem_cons_self)
  simp only [Demand.exists_meet_iff, Demand.meet_eq_error_iff hvalues hcarries]

lemma packInto_eq_error_iff (hw : f.walk offset = ps.map .ok) (hc : Chain offset ps stop)
    {b : Buffer} (hb : b.holding.readOnly = false) {values : List Value} {fault : Fault} :
    (f.packInto b offset values).outcome = .error fault ↔
      f.plan b.data.length offset values = .error fault := by
  cases hplan : f.plan b.data.length offset values with
  | error other =>
    simp only [packInto, hb, hplan, Bool.false_eq_true, if_false, Except.error.injEq]
  | ok plan =>
    rw [packInto_of_plan hw hc hb hplan]
    constructor <;> rintro ⟨⟩

/-- What a record demands is met with as many values as it has. -/
lemma mapM_meet_take (order : ByteOrder) (length : ℕ) {values : List Value}
    (hn : (fieldsOf 0 ps).length ≤ values.length) :
    (demandsOf 0 ps).mapM (Demand.meet order length (values.take (fieldsOf 0 ps).length)) =
      (demandsOf 0 ps).mapM (Demand.meet order length values) := by
  refine mapM_congr fun d hd => ?_
  cases d with
  | room p => rfl
  | value e =>
    have hindex := getElem?_index_of_mem_fieldsOf (mem_fieldsOf_of_value hd)
    obtain ⟨hlt, -⟩ := List.getElem?_eq_some_iff.mp hindex
    have hv : values[e.index]? = some values[e.index] := List.getElem?_eq_getElem _
    rw [Demand.meet_value_of_some hv,
      Demand.meet_value_of_some ((List.getElem?_take_of_lt hlt).trans hv)]

/-- Values beyond those of the record make no difference. -/
lemma packInto_take (hw : f.walk offset = ps.map .ok) (b : Buffer) {values : List Value}
    (hn : (fieldsOf 0 ps).length ≤ values.length) :
    (f.packInto b offset (values.take (fieldsOf 0 ps).length)).buffer =
        (f.packInto b offset values).buffer ∧
      (f.packInto b offset (values.take (fieldsOf 0 ps).length)).outcome =
        (f.packInto b offset values).outcome := by
  simp only [packInto, plan_eq_mapM hw, mapM_meet_take f.order b.data.length hn]
  cases b.holding.readOnly with
  | true => exact ⟨rfl, rfl⟩
  | false =>
    cases (demandsOf 0 ps).mapM (Demand.meet f.order b.data.length values) <;> exact ⟨rfl, rfl⟩

/-- Packing an accepted format into a writable buffer succeeds when every token is inside the
buffer and there is a value for every field that the field takes; values beyond those make no
difference. Otherwise it is refused for the first demand that is not met, where the room for a
token comes before the values of its fields. -/
theorem packInto_outcome {d : Text} (hd : Descriptor.compile d = .ok f) (offset : ℤ) :
    ∃ ps n, f.placements offset = .ok ps ∧ f.arity = .ok n ∧ (fieldsOf 0 ps).length = n ∧
      ∀ b : Buffer, b.holding.readOnly = false →
        (∀ values, (∃ count, (f.packInto b offset values).outcome = .ok count) ↔
          (∀ p ∈ ps, p.Inside b.data.length) ∧ n ≤ values.length ∧
            ∀ e ∈ fieldsOf 0 ps, ∀ v, values[e.index]? = some v → e.Takes v) ∧
        (∀ values, n ≤ values.length →
          (f.packInto b offset (values.take n)).buffer = (f.packInto b offset values).buffer ∧
          (f.packInto b offset (values.take n)).outcome = (f.packInto b offset values).outcome) ∧
        ∀ values, (∀ v ∈ values, v.Plain) → ∀ fault,
          (f.packInto b offset values).outcome = .error fault ↔
            ∃ before demand after, demandsOf 0 ps = before ++ demand :: after ∧
              (∀ met ∈ before, met.Met b.data.length values) ∧
              demand.Refused f.order b.data.length values fault := by
  have hwell := Descriptor.wellFormed_of_compile hd
  obtain ⟨ps, stop, hw, hc⟩ := hwell.exists_chain offset
  refine ⟨ps, (fieldsOf 0 ps).length, placements_of_walk hw, arity_of_walk hwell hw, rfl,
    fun b hb => ⟨fun values => ?_, fun values hn => packInto_take hw b hn,
      fun values hvalues fault => ?_⟩⟩
  · rw [exists_packInto_iff hw hc hb, Packable, fitting_iff]
  · rw [packInto_eq_error_iff hw hc hb, plan_eq_error_iff hw hc hvalues]

/-- A short buffer is refused before a missing value, and a value that does not fit before the
room that the next token has not. The size of so many numbers cannot be named. -/
theorem packInto_outcome_first :
    (∃ f, Descriptor.compile "<H3s" = .ok f ∧
      (f.packInto (.whole .growable [0]) 0 []).outcome = .error (.bufferTooSmall 0 2 1) ∧
      (∃ fault, (f.packInto (.whole .growable [0, 0]) 0 [.int (-1)]).outcome = .error fault ∧
        Unfit (.int (-1)) fault) ∧
      (f.packInto (.whole .growable [0, 0, 0, 0, 0]) 0 [.int 1]).outcome =
        .error (.insufficientValues 2 1)) ∧
    ∃ f, Descriptor.compile (manyNines ++ [CodePoint.ofChar 'q']) = .ok f ∧
      (f.packInto (.whole .growable []) 0 []).outcome = .error (.unshowable none) := by
  have hsmall : ∀ n : ℤ, n.natAbs < 10 ^ 3 → ∀ v ∈ [Value.int n], v.Plain := by
    intro n hn v hv
    rw [List.mem_singleton.mp hv]
    exact ⟨Value.showable_of_lt hn, fun t ht => by cases ht⟩
  constructor
  · have hd : Descriptor.compile "<H3s" =
        .ok ⟨.littleEndian, [⟨1, .known .uint16⟩, ⟨3, .known .string⟩], "<H3s"⟩ := by cbv
    obtain ⟨ps, _, hps, -, -, hpack⟩ := packInto_outcome hd 0
    obtain rfl : ps = [⟨0, 1, .uint16⟩, ⟨2, 3, .string⟩] :=
      Except.ok.inj (hps.symm.trans (by rfl))
    have hdemands : demandsOf 0 [⟨0, 1, .uint16⟩, ⟨2, 3, .string⟩] =
        [.room ⟨0, 1, .uint16⟩, .value ⟨0, 2, .uint16, 0⟩, .room ⟨2, 3, .string⟩,
          .value ⟨2, 3, .string, 1⟩] := by rfl
    refine ⟨_, hd, ?_, ?_, ?_⟩
    · obtain ⟨-, -, hfirst⟩ := hpack (.whole .growable [0]) rfl
      refine (hfirst [] (List.forall_mem_nil _) _).mpr
        ⟨[], _, _, hdemands, List.forall_mem_nil _, .outside (by decide) ?_⟩
      exact ⟨Numeral.showable_of_lt (by decide), Numeral.showable_of_lt (by decide)⟩
    · obtain ⟨-, -, hfirst⟩ := hpack (.whole .growable [0, 0]) rfl
      have hplain := hsmall (-1) (by decide)
      have hnot : ¬FieldLayout.Takes ⟨0, 2, .uint16, 0⟩ (.int (-1)) := by
        rintro ⟨n, hn, hfits⟩
        obtain rfl := Option.some.inj hn
        exact absurd hfits (by decide)
      cases hencode : FieldLayout.encode .littleEndian ⟨0, 2, .uint16, 0⟩ (.int (-1)) with
      | ok raw => exact absurd (FieldLayout.exists_encode_iff.mp ⟨raw, hencode⟩) hnot
      | error fault =>
        have hunfit := FieldLayout.unfit_of_encode (by decide)
          (hplain _ List.mem_cons_self) hencode
        refine ⟨fault, (hfirst _ hplain _).mpr ⟨[_], _, _, hdemands, ?_, ?_⟩, hunfit⟩
        · exact List.forall_mem_singleton.mpr (by decide : Placement.Inside _ _)
        · exact .unfit rfl hnot hunfit hencode
    · obtain ⟨-, -, hfirst⟩ := hpack (.whole .growable [0, 0, 0, 0, 0]) rfl
      refine (hfirst _ (hsmall 1 (by decide)) _).mpr ⟨[_, _, _], _, _, hdemands, ?_, .missing rfl⟩
      have htaken : FieldLayout.Takes ⟨0, 2, .uint16, 0⟩ (.int 1) := ⟨1, rfl, by decide⟩
      simp only [List.forall_mem_cons]
      exact ⟨(by decide : Placement.Inside _ _), ⟨_, rfl, htaken⟩,
        (by decide : Placement.Inside _ _), List.forall_mem_nil _⟩
  · obtain ⟨n, hpos, hsize, hd⟩ := compile_manyNines
    obtain ⟨ps, _, hps, -, -, hpack⟩ := packInto_outcome hd 0
    obtain rfl : ps = [⟨0, n, .int64⟩] := Except.ok.inj (hps.symm.trans (by rfl))
    obtain ⟨-, -, hfirst⟩ := hpack (.whole .growable []) rfl
    refine ⟨_, hd, (hfirst [] (List.forall_mem_nil _) _).mpr
      ⟨[], _, _, rfl, List.forall_mem_nil _, .unshowable ?_ ?_⟩⟩
    · rintro ⟨-, hstop⟩
      have hstop' : (0 + n * 8 : ℤ) ≤ 0 := hstop
      omega
    · exact fun h => hsize h.2

end Format

end BinaryLayout
