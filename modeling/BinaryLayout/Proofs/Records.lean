import BinaryLayout.Proofs.Placements
import BinaryLayout.Proofs.Writes

/-!
# Records as lists of fields

Over a walk that does not stop early, unpacking succeeds just when every token is inside the data
and every field can be decoded, and packing just when every token is inside the buffer and every
value can be encoded. The writes of packing stay inside their fields, and so inside the buffer.
-/
namespace BinaryLayout

namespace Format

variable {f : Format} {offset : ℤ} {ps : List Placement}

theorem arity_of_walk (h : f.WellFormed) (hw : f.walk offset = ps.map .ok) :
    f.arity = .ok (fieldsOf 0 ps).length := by
  obtain ⟨ps', -, hw', -⟩ := h.exists_chain 0
  rw [arity, layout_eq_fieldsFrom, fieldsFrom_of_walk hw',
    length_fieldsOf_place f.order hw hw' 0 0]
  rfl

lemma unpackFrom_of_walk (hw : f.walk offset = ps.map .ok) (data : Bytes) :
    f.unpackFrom data offset =
      (ps.mapM fun (p : Placement) => p.values f.order data).map List.flatten := by
  rw [unpackFrom, hw, List.mapM_map]
  rfl

/-- A record is unpacked when its tokens are inside the data and its fields can be decoded. -/
theorem unpackFrom_eq_ok_iff (hw : f.walk offset = ps.map .ok) {data : Bytes}
    {values : List Value} :
    f.unpackFrom data offset = .ok values ↔
      (∀ p ∈ ps, p.Inside data.length) ∧
        List.Forall₂ (fun e v => FieldLayout.decode f.order data e = .ok v) (fieldsOf 0 ps)
          values := by
  rw [unpackFrom_of_walk hw, ← mapM_eq_ok_iff]
  constructor
  · intro h
    cases hp : ps.mapM fun (p : Placement) => p.values f.order data with
    | error fault => rw [hp] at h; cases h
    | ok parts =>
      have hin := inside_of_mapM_values hp
      exact ⟨hin, by rw [← mapM_values_of_inside f.order 0 hin, h]⟩
  · rintro ⟨hin, h⟩
    rw [mapM_values_of_inside f.order 0 hin, h]

lemma plan_of_inside (hw : f.walk offset = ps.map .ok) {length : ℕ}
    (hin : ∀ p ∈ ps, p.Inside length) (values : List Value) :
    f.plan length offset values = planFields f.order values.length (fieldsOf 0 ps) values := by
  rw [Format.plan, hw, planWalk_of_inside f.order values.length 0 hin]

/-- A record is planned when its tokens are inside the buffer and its values can be encoded. -/
theorem plan_eq_ok_iff (hw : f.walk offset = ps.map .ok) {length : ℕ} {values : List Value}
    {plan : Plan} :
    f.plan length offset values = .ok plan ↔
      (∀ p ∈ ps, p.Inside length) ∧
        planFields f.order values.length (fieldsOf 0 ps) values = .ok plan := by
  constructor
  · intro h
    have hin : ∀ p ∈ ps, p.Inside length := by
      rw [Format.plan, hw] at h
      exact inside_of_planWalk h
    exact ⟨hin, by rw [← plan_of_inside hw hin, h]⟩
  · rintro ⟨hin, h⟩
    rw [plan_of_inside hw hin, h]

end Format

/-! ## Writes inside their fields -/

/-- The byte belongs to the field. -/
def FieldLayout.Covers (e : FieldLayout) (i : ℕ) : Prop := e.offset ≤ i ∧ (i : ℤ) < e.stop

/-- The bytes go into the field. -/
def Write.Within (w : Write) (e : FieldLayout) : Prop :=
  w.offset = e.offset.toNat ∧ (w.raw.length : ℤ) ≤ e.size

lemma Write.Within.covers {w : Write} {e : FieldLayout} (h : w.Within e) (h0 : 0 ≤ e.offset)
    {i : ℕ} (hi : w.Covers i) : e.Covers i := by
  obtain ⟨hoffset, hsize⟩ := h
  obtain ⟨hlow, hhigh⟩ := hi
  unfold FieldLayout.Covers FieldLayout.stop
  omega

lemma Write.Within.inside {w : Write} {e : FieldLayout} (h : w.Within e) (h0 : 0 ≤ e.offset)
    {length : ℕ} (hl : e.stop ≤ length) : w.Inside length := by
  obtain ⟨hoffset, hsize⟩ := h
  unfold FieldLayout.stop at hl
  unfold Write.Inside
  omega

/-- Each write of a plan goes into one of the fields. -/
theorem within_of_planFields {order : ByteOrder} {given : ℕ} {fields : List FieldLayout}
    (hs : ∀ e ∈ fields, e.Shaped) {values : List Value} {plan : Plan}
    (h : planFields order given fields values = .ok plan) :
    ∀ w ∈ plan.writes, ∃ e ∈ fields, w.Within e := by
  induction fields generalizing values plan with
  | nil => cases h; exact fun w hw => absurd hw List.not_mem_nil
  | cons e fields ih =>
    obtain ⟨v, rest, raw, others, rfl, hraw, ho, rfl⟩ := planFields_cons_eq_ok.mp h
    intro w hw
    cases hw with
    | head =>
      exact ⟨e, List.mem_cons_self, rfl, FieldLayout.length_of_encode_le
        (hs e List.mem_cons_self) hraw⟩
    | tail _ hw =>
      obtain ⟨e', he', hwithin⟩ := ih (fun e' he' => hs e' (List.mem_cons_of_mem _ he')) ho w hw
      exact ⟨e', List.mem_cons_of_mem _ he', hwithin⟩

namespace Format

variable {f : Format} {offset stop : ℤ} {ps : List Placement}

theorem inside_of_plan (hw : f.walk offset = ps.map .ok) (hc : Chain offset ps stop)
    {length : ℕ} {values : List Value} {plan : Plan}
    (h : f.plan length offset values = .ok plan) : ∀ w ∈ plan.writes, w.Inside length := by
  obtain ⟨hin, hplan⟩ := (plan_eq_ok_iff hw).mp h
  intro w hmem
  obtain ⟨e, he, hwithin⟩ :=
    within_of_planFields (fun e he => (hc.field_bounds he).1) hplan w hmem
  obtain ⟨h0, hl⟩ := hc.field_inside hin he
  exact hwithin.inside h0 hl

theorem packInto_of_plan (hw : f.walk offset = ps.map .ok) (hc : Chain offset ps stop)
    {b : Buffer} (hb : b.holding.readOnly = false) {values : List Value} {plan : Plan}
    (h : f.plan b.data.length offset values = .ok plan) :
    f.packInto b offset values =
      ⟨{ b with data := b.data.spliceAll plan.writes }, plan.rest.length,
        .ok plan.writes.length⟩ := by
  have hwrite := Buffer.writeAll_of_inside (inside_of_plan hw hc h)
  simp only [packInto, hb, h, carryOut, hwrite, Bool.false_eq_true, if_false, if_true]

/-- Packing that succeeds has a plan. -/
theorem plan_of_packInto {b : Buffer} {values : List Value} {n : ℕ}
    (h : (f.packInto b offset values).outcome = .ok n) :
    b.holding.readOnly = false ∧ ∃ plan, f.plan b.data.length offset values = .ok plan := by
  unfold packInto at h
  split at h
  · cases h
  · next hb =>
    split at h
    · cases h
    · next plan hplan => exact ⟨by simpa using hb, plan, hplan⟩

/-! ## Records of their own -/

variable [Host]

/-- What can go wrong with the room for a record. -/
inductive NoRoom : Fault → Prop where
  | sizeTooLarge : NoRoom .sizeTooLarge
  | outOfMemory : NoRoom .outOfMemory

/-- Room is granted, or there is none. -/
lemma allocate_natCast (size : ℕ) :
    allocate size = .ok size ∨ ∃ fault, allocate size = .error fault ∧ NoRoom fault := by
  unfold allocate checkMemory
  by_cases hword : FitsWord size
  · rw [if_neg (not_not_intro hword), if_neg (by omega)]
    by_cases hmemory : (Host.reserve : ℤ) < size
    · rw [if_pos hmemory]
      exact .inr ⟨_, rfl, .outOfMemory⟩
    · rw [if_neg hmemory]
      exact .inl rfl
  · rw [if_pos hword]
    exact .inr ⟨_, rfl, .sizeTooLarge⟩

/-- How packing a record of its own can end: there is no room for it, its plan is refused, the
room that was granted cannot be kept, or the plan is carried out over zeros. -/
inductive PackEnds (f : Format) (size : ℤ) (values : List Value) :
    Except Fault PackedRecord → Prop where
  | noRoom {fault : Fault} : allocate size = .error fault → NoRoom fault →
      PackEnds f size values (.error fault)
  | refused {fault : Fault} : allocate size = .ok size.toNat →
      f.plan size.toNat 0 values = .error fault → PackEnds f size values (.error fault)
  | notKept {plan : Plan} : Host.storage < size → f.plan size.toNat 0 values = .ok plan →
      PackEnds f size values (.error .outOfMemory)
  | packed {plan : Plan} : size ≤ Host.storage → f.plan size.toNat 0 values = .ok plan →
      PackEnds f size values
        (.ok ⟨Bytes.spliceAll (.zeros size.toNat) plan.writes, plan.rest.length,
          plan.writes.length⟩)

/-- A record of its own is planned when room is granted, and then written over zeros. -/
theorem packEnds (hw : f.walk 0 = ps.map .ok) (hc : Chain 0 ps stop) (values : List Value) :
    PackEnds f stop values (f.pack values) := by
  obtain ⟨size, rfl⟩ := Int.eq_ofNat_of_zero_le hc.start_le_stop
  have hsize := size_of_walk hw hc
  obtain ha | ⟨fault, ha, hfault⟩ := allocate_natCast size
  swap
  · have hpack : f.pack values = .error fault := by
      simp only [pack, hsize, ha, bind, Except.bind]
    exact hpack ▸ .noRoom ha hfault
  cases hplan : f.plan size 0 values with
  | error fault =>
    have hpack : f.pack values = .error fault := by
      simp only [pack, hsize, ha, hplan, bind, Except.bind]
    exact hpack ▸ .refused ha hplan
  | ok plan =>
    by_cases hkept : (Host.storage : ℤ) < size
    · have hzeros : keepZeros size = .error .outOfMemory := if_pos (by omega)
      have hpack : f.pack values = .error .outOfMemory := by
        simp only [pack, hsize, ha, hplan, hzeros, bind, Except.bind]
      exact hpack ▸ .notKept hkept hplan
    · have hle : size ≤ Host.storage := by omega
      have hin : ∀ w ∈ plan.writes,
          w.Inside (Buffer.whole .growable (Bytes.zeros size)).data.length := by
        intro w hmem
        exact (Bytes.length_zeros size).symm ▸ inside_of_plan hw hc hplan w hmem
      have hpack : f.pack values = .ok ⟨Bytes.spliceAll (.zeros size) plan.writes,
          plan.rest.length, plan.writes.length⟩ := by
        simp only [pack, hsize, ha, hplan, keepZeros_of_le hle, carryOut,
          Buffer.writeAll_of_inside hin, bind, Except.bind, pure, Except.pure, if_true]
        rfl
      exact hpack ▸ .packed (by omega) hplan

/-- A record with a plan is packed whole, unless there is no room for it. -/
theorem pack_of_plan (hw : f.walk 0 = ps.map .ok) (hc : Chain 0 ps stop) {values : List Value}
    {plan : Plan} (h : f.plan stop.toNat 0 values = .ok plan) :
    f.size = .ok stop ∧
      (stop ≤ Host.storage → f.pack values =
        .ok ⟨Bytes.spliceAll (.zeros stop.toNat) plan.writes, plan.rest.length,
          plan.writes.length⟩) ∧
      (Host.storage < stop → ∃ fault, f.pack values = .error fault ∧ NoRoom fault) := by
  refine ⟨size_of_walk hw hc, ?_⟩
  have hends := packEnds hw hc values
  generalize f.pack values = r at hends
  cases hends with
  | noRoom ha hfault =>
    refine ⟨fun hle => ?_, fun _ => ⟨_, rfl, hfault⟩⟩
    obtain ⟨size, rfl⟩ := Int.eq_ofNat_of_zero_le hc.start_le_stop
    rw [allocate_of_le (by omega)] at ha
    cases ha
  | refused _ hplan => rw [h] at hplan; cases hplan
  | notKept hlt _ =>
    exact ⟨fun hle => absurd hlt (Int.not_lt.mpr hle), fun _ => ⟨_, rfl, .outOfMemory⟩⟩
  | packed hle hplan =>
    obtain rfl := Except.ok.inj (h.symm.trans hplan)
    exact ⟨fun _ => rfl, fun hlt => absurd hlt (Int.not_lt.mpr hle)⟩

end Format

end BinaryLayout
