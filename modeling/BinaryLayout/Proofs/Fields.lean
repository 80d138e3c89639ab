import BinaryLayout.Layout
import BinaryLayout.Packing
import BinaryLayout.Unpacking
import Mathlib.Algebra.Order.Ring.Int
import Mathlib.Data.List.Forall2
import Mathlib.Tactic.Ring

/-!
# Packing and unpacking field by field

The walks of packing, unpacking and the layout count values and compute offsets each on their
own. Here all three become one list of fields: packing encodes the values into the fields one
after the other, unpacking decodes them, and the only thing that a walk adds is that every token
is checked against the buffer before its fields are reached.
-/
namespace BinaryLayout

namespace FieldLayout

def stop (e : FieldLayout) : ℤ := e.offset + e.size

def encode (order : ByteOrder) (e : FieldLayout) (v : Value) : Except Fault Bytes :=
  match e.specifier.kind with
  | .string => Field.encodeString v e.size
  | _ => Field.encode e.specifier v order

def read (order : ByteOrder) (e : FieldLayout) (raw : Bytes) : Except Fault Value :=
  match e.specifier.kind with
  | .string => (Field.decodeString raw).map .text
  | _ => Field.decode e.specifier (.ofBytes raw) order

def bytes (data : Bytes) (e : FieldLayout) : Bytes := data.slice e.offset e.stop

def decode (order : ByteOrder) (data : Bytes) (e : FieldLayout) : Except Fault Value :=
  e.read order (e.bytes data)

end FieldLayout

/-! ## The fields of a walk -/

def numbered (k : ℕ) (fields : List (ℕ → FieldLayout)) : List FieldLayout :=
  (fields.zipIdx k).map fun entry => entry.1 entry.2

@[simp] theorem numbered_nil (k : ℕ) : numbered k [] = [] := rfl

@[simp] theorem numbered_cons (k : ℕ) (field : ℕ → FieldLayout) (rest : List (ℕ → FieldLayout)) :
    numbered k (field :: rest) = field k :: numbered (k + 1) rest := rfl

@[simp] theorem length_numbered (k : ℕ) (fields : List (ℕ → FieldLayout)) :
    (numbered k fields).length = fields.length := by
  simp [numbered]

theorem numbered_append (k : ℕ) (fields others : List (ℕ → FieldLayout)) :
    numbered k (fields ++ others) = numbered k fields ++ numbered (k + fields.length) others := by
  simp [numbered, List.zipIdx_append]

/-- The fields of tokens at their places, numbered from `k` on. -/
def fieldsOf (k : ℕ) (ps : List Placement) : List FieldLayout :=
  numbered k (ps.flatMap Placement.fields)

theorem fieldsOf_cons (k : ℕ) (p : Placement) (ps : List Placement) :
    fieldsOf k (p :: ps) = numbered k p.fields ++ fieldsOf (k + p.fields.length) ps := by
  rw [fieldsOf, List.flatMap_cons, numbered_append, ← fieldsOf]

/-- The fields of the values of the record at an offset. -/
def Format.fieldsFrom (f : Format) (offset : ℤ) : Except Fault (List FieldLayout) :=
  (f.placements offset).map (fieldsOf 0)

theorem Format.layout_eq_fieldsFrom (f : Format) : f.layout = f.fieldsFrom 0 := rfl

/-! ## Packing -/

/-- The writes of values into fields, one after the other. -/
def planFields (order : ByteOrder) (given : ℕ) :
    List FieldLayout → List Value → Except Fault Plan
  | [], values => .ok ⟨[], values⟩
  | e :: fields, values => do
    let (v, rest) ← nextValue given values
    let raw ← e.encode order v
    let plan ← planFields order given fields rest
    return ⟨⟨e.offset.toNat, raw⟩ :: plan.writes, plan.rest⟩

theorem planFields_append (order : ByteOrder) (given : ℕ) (fields others : List FieldLayout)
    (values : List Value) :
    planFields order given (fields ++ others) values = do
      let first ← planFields order given fields values
      let second ← planFields order given others first.rest
      return ⟨first.writes ++ second.writes, second.rest⟩ := by
  induction fields generalizing values with
  | nil =>
    simp only [List.nil_append, planFields, bind, Except.bind, pure, Except.pure]
    split <;> simp_all
  | cons e fields ih =>
    simp only [List.cons_append, planFields, ih, bind, Except.bind, pure, Except.pure]
    cases nextValue given values with
    | error fault => rfl
    | ok next =>
      simp only
      cases e.encode order next.1 with
      | error fault => rfl
      | ok raw =>
        simp only
        cases planFields order given fields next.2 with
        | error fault => rfl
        | ok plan =>
          simp only
          cases planFields order given others plan.rest <;> rfl

/-- The elements of a scalar token, field by field. -/
theorem planElements_eq (order : ByteOrder) (s : Specifier) (hs : s.kind ≠ .string) (given : ℕ)
    {offset : ℤ} (h : 0 ≤ offset) (k count : ℕ) (values : List Value) :
    planElements order s given offset.toNat count values =
      planFields order given
        (numbered k ((List.range count).map fun (i : ℕ) =>
          FieldLayout.mk (offset + i * s.size) s.size s)) values := by
  induction count generalizing offset k values with
  | zero => rfl
  | succ count ih =>
    have hnext : (offset + s.size).toNat = offset.toNat + s.size := by omega
    have hshift : (List.range (count + 1)).map (fun (i : ℕ) =>
          FieldLayout.mk (offset + i * s.size) s.size s) =
        FieldLayout.mk offset s.size s :: (List.range count).map fun (i : ℕ) =>
          FieldLayout.mk (offset + s.size + i * s.size) s.size s := by
      rw [List.range_succ_eq_map, List.map_cons, List.map_map]
      congr 1
      · simp
      · apply List.map_congr_left
        intro i _
        simp only [Function.comp_apply]
        congr 1
        push_cast
        ring
    have hencode : ∀ v, FieldLayout.encode order ⟨offset, s.size, s, k⟩ v =
        Field.encode s v order := by
      intro v
      unfold FieldLayout.encode
      split
      · next hk => exact absurd hk hs
      · rfl
    rw [hshift, numbered_cons]
    simp only [planElements, planFields, hencode, ← ih (show 0 ≤ offset + (s.size : ℤ) by omega),
      hnext]

/-- A token is packed by packing its fields, once it is checked. -/
theorem Placement.plan_eq (p : Placement) (order : ByteOrder) (length given k : ℕ)
    (values : List Value) :
    p.plan order length given values = (p.check length).bind fun _ =>
      planFields order given (numbered k p.fields) values := by
  unfold Placement.plan Placement.check
  by_cases h : p.Inside length
  swap
  · rw [if_neg h]
    rfl
  rw [if_pos h]
  obtain ⟨offset, count, s⟩ := p
  cases hs : s.kind with
  | pad => simp [Placement.fields, Placement.extents, hs, planFields, Except.bind]
  | string =>
    simp only [Placement.fields, Placement.extents, hs, List.map_cons, List.map_nil,
      numbered_cons, numbered_nil, planFields, FieldLayout.encode, bind, Except.bind, pure,
      Except.pure]
  | char | int | real =>
    have hne : s.kind ≠ .string := by rw [hs]; decide
    have he := planElements_eq order s hne given h.1 k count.toNat values
    simp only [Placement.fields, Placement.extents, hs, List.map_map]
    exact he

theorem inside_of_planWalk {order : ByteOrder} {length given : ℕ} {ps : List Placement}
    {values : List Value} {plan : Plan}
    (h : planWalk order length given (ps.map .ok) values = .ok plan) :
    ∀ p ∈ ps, p.Inside length := by
  induction ps generalizing values plan with
  | nil => exact fun p hp => absurd hp List.not_mem_nil
  | cons p ps ih =>
    simp only [List.map_cons, planWalk, bind, Except.bind, p.plan_eq order length given 0] at h
    unfold Placement.check at h
    by_cases hp : p.Inside length
    swap
    · simp [if_neg hp] at h
    rw [if_pos hp] at h
    simp only at h
    split at h
    · cases h
    · next first _ =>
      split at h
      · cases h
      · next others ho =>
        intro q hq
        cases hq with
        | head => exact hp
        | tail _ hq => exact ih ho q hq

/-- Inside the buffer a walk is packed by packing its fields. -/
theorem planWalk_of_inside (order : ByteOrder) {length : ℕ} (given k : ℕ) {ps : List Placement}
    (h : ∀ p ∈ ps, p.Inside length) (values : List Value) :
    planWalk order length given (ps.map .ok) values =
      planFields order given (fieldsOf k ps) values := by
  induction ps generalizing k values with
  | nil => rfl
  | cons p ps ih =>
    have hp : p.check length = .ok () := if_pos (h p List.mem_cons_self)
    have hps : ∀ q ∈ ps, q.Inside length := fun q hq => h q (List.mem_cons_of_mem _ hq)
    rw [fieldsOf_cons, planFields_append]
    simp only [List.map_cons, planWalk, p.plan_eq order length given k, hp,
      ih (k + p.fields.length) hps, bind, Except.bind]

/-- A walk that is not packed has a token outside the buffer, or one of its fields is not
packed. -/
theorem planWalk_eq_error {order : ByteOrder} {length given : ℕ} (k : ℕ) {ps : List Placement}
    {values : List Value} {fault : Fault}
    (h : planWalk order length given (ps.map .ok) values = .error fault) :
    (∃ p ∈ ps, p.check length = .error fault) ∨
      planFields order given (fieldsOf k ps) values = .error fault := by
  induction ps generalizing k values with
  | nil => cases h
  | cons p ps ih =>
    rw [fieldsOf_cons, planFields_append]
    simp only [List.map_cons, planWalk, p.plan_eq order length given k, bind, Except.bind] at h ⊢
    cases hp : p.check length with
    | error other =>
      rw [hp] at h
      cases h
      exact .inl ⟨p, List.mem_cons_self, hp⟩
    | ok _ =>
      rw [hp] at h
      simp only at h
      cases hf : planFields order given (numbered k p.fields) values with
      | error other =>
        rw [hf] at h
        exact .inr h
      | ok first =>
        rw [hf] at h
        simp only at h ⊢
        cases ho : planWalk order length given (ps.map .ok) first.rest with
        | ok others => rw [ho] at h; cases h
        | error other =>
          rw [ho] at h
          cases h
          obtain ⟨q, hq, hc⟩ | hr := ih (k + p.fields.length) ho
          · exact .inl ⟨q, List.mem_cons_of_mem _ hq, hc⟩
          · exact .inr (by rw [hr])

theorem planFields_cons_eq_ok {order : ByteOrder} {given : ℕ} {e : FieldLayout}
    {fields : List FieldLayout} {values : List Value} {plan : Plan} :
    planFields order given (e :: fields) values = .ok plan ↔
      ∃ v rest raw others, values = v :: rest ∧ e.encode order v = .ok raw ∧
        planFields order given fields rest = .ok others ∧
        plan = ⟨⟨e.offset.toNat, raw⟩ :: others.writes, others.rest⟩ := by
  constructor
  · intro h
    cases values with
    | nil => cases h
    | cons v rest =>
      simp only [planFields, nextValue, bind, Except.bind, pure, Except.pure] at h
      split at h
      · cases h
      · next raw hraw =>
        split at h
        · cases h
        · next others ho =>
          cases h
          exact ⟨v, rest, raw, others, rfl, hraw, ho, rfl⟩
  · rintro ⟨v, rest, raw, others, rfl, hraw, ho, rfl⟩
    simp only [planFields, nextValue, hraw, ho, bind, Except.bind, pure, Except.pure]

theorem planFields_of_forall₂ {order : ByteOrder} (given : ℕ) {raw : FieldLayout → Bytes}
    {fields : List FieldLayout} {values : List Value}
    (h : List.Forall₂ (fun e v => FieldLayout.encode order e v = .ok (raw e)) fields values) :
    planFields order given fields values =
      .ok ⟨fields.map fun e => ⟨e.offset.toNat, raw e⟩, []⟩ := by
  induction h with
  | nil => rfl
  | cons he _ ih => exact planFields_cons_eq_ok.mpr ⟨_, _, _, _, rfl, he, ih, rfl⟩

/-- A plan has a write for each field and takes as many values. -/
theorem planFields_lengths {order : ByteOrder} {given : ℕ} {fields : List FieldLayout}
    {values : List Value} {plan : Plan} (h : planFields order given fields values = .ok plan) :
    plan.writes.length = fields.length ∧ plan.rest = values.drop fields.length := by
  induction fields generalizing values plan with
  | nil => cases h; exact ⟨rfl, rfl⟩
  | cons e fields ih =>
    obtain ⟨v, rest, raw, others, rfl, -, ho, rfl⟩ := planFields_cons_eq_ok.mp h
    obtain ⟨hw, hr⟩ := ih ho
    exact ⟨congrArg (· + 1) hw, hr⟩

/-! ## Unpacking -/

/-- A function that succeeds everywhere on a list gives the results in order. -/
theorem mapM_eq_ok_iff {α β : Type} {g : α → Except Fault β} {xs : List α} {ys : List β} :
    xs.mapM g = .ok ys ↔ List.Forall₂ (fun x y => g x = .ok y) xs ys := by
  induction xs generalizing ys with
  | nil =>
    rw [List.mapM_nil, List.forall₂_nil_left_iff]
    exact ⟨fun h => by cases h; rfl, fun h => by rw [h]; rfl⟩
  | cons x xs ih =>
    rw [List.mapM_cons, List.forall₂_cons_left_iff]
    simp only [← ih, bind, Except.bind, pure, Except.pure]
    constructor
    · intro h
      split at h
      · cases h
      · next y hy =>
        split at h
        · cases h
        · next others ho =>
          cases h
          exact ⟨y, others, hy, ho, rfl⟩
    · rintro ⟨y, others, hy, ho, rfl⟩
      simp only [hy, ho]

/-- Functions that agree on a list give the same results in order, or fail in the same way. -/
lemma mapM_congr {α β : Type} {g g' : α → Except Fault β} {xs : List α}
    (h : ∀ x ∈ xs, g' x = g x) : xs.mapM g' = xs.mapM g := by
  induction xs with
  | nil => rfl
  | cons x xs ih =>
    rw [List.mapM_cons, List.mapM_cons, h x List.mem_cons_self,
      ih fun y hy => h y (List.mem_cons_of_mem _ hy)]

/-- The number of a field does not matter for its value. -/
lemma mapM_decode_numbered (order : ByteOrder) (data : Bytes) (s : Specifier) (k : ℕ)
    (extents : List (ℤ × ℤ)) :
    (numbered k (extents.map fun e => FieldLayout.mk e.1 e.2 s)).mapM
        (FieldLayout.decode order data) =
      extents.mapM fun e => FieldLayout.decode order data ⟨e.1, e.2, s, 0⟩ := by
  induction extents generalizing k with
  | nil => rfl
  | cons e extents ih =>
    rw [List.map_cons, numbered_cons, List.mapM_cons, List.mapM_cons, ih]
    rfl

lemma decode_of_ne_string {order : ByteOrder} {data : Bytes} {s : Specifier}
    (hs : s.kind ≠ .string) (offset size : ℤ) (k : ℕ) :
    FieldLayout.decode order data ⟨offset, size, s, k⟩ =
      Field.decode s (.ofBytes (data.slice offset (offset + size))) order := by
  unfold FieldLayout.decode FieldLayout.read
  split
  · next hk => exact absurd hk hs
  · rfl

/-- A token is unpacked by unpacking its fields, once it is checked. -/
theorem Placement.values_eq (p : Placement) (order : ByteOrder) (data : Bytes) (k : ℕ) :
    p.values order data = (p.check data.length).bind fun _ =>
      (numbered k p.fields).mapM (FieldLayout.decode order data) := by
  unfold Placement.values
  cases p.check data.length with
  | error fault => rfl
  | ok _ =>
    obtain ⟨offset, count, s⟩ := p
    cases hs : s.kind with
    | pad => simp [Placement.fields, Placement.extents, hs, bind, Except.bind, numbered]
    | string =>
      simp only [Placement.fields, Placement.extents, List.map_cons, List.map_nil,
        numbered_cons, numbered_nil, List.mapM_cons, List.mapM_nil, FieldLayout.decode,
        FieldLayout.read, FieldLayout.bytes, FieldLayout.stop, hs, bind, Except.bind, pure,
        Except.pure]
      cases Field.decodeString (data.slice offset (offset + count)) <;> rfl
    | char | int | real =>
      have hne : s.kind ≠ .string := by rw [hs]; decide
      simp only [Placement.fields, Placement.extents, hs, mapM_decode_numbered, List.mapM_map,
        decode_of_ne_string hne]
      rfl

/-- A walk inside the data is unpacked by unpacking its fields. -/
theorem mapM_values_of_inside (order : ByteOrder) {data : Bytes} (k : ℕ) {ps : List Placement}
    (h : ∀ p ∈ ps, p.Inside data.length) :
    (ps.mapM fun (p : Placement) => p.values order data).map List.flatten =
      (fieldsOf k ps).mapM (FieldLayout.decode order data) := by
  induction ps generalizing k with
  | nil => rfl
  | cons p ps ih =>
    have hp : p.check data.length = .ok () := if_pos (h p List.mem_cons_self)
    rw [fieldsOf_cons, List.mapM_append,
      ← ih (k + p.fields.length) fun q hq => h q (List.mem_cons_of_mem _ hq), List.mapM_cons,
      p.values_eq order data k, hp]
    simp only [bind, Except.bind, pure, Except.pure]
    cases (numbered k p.fields).mapM (FieldLayout.decode order data) with
    | error fault => rfl
    | ok first =>
      simp only
      cases ps.mapM fun (p : Placement) => p.values order data with
      | error fault => rfl
      | ok others => rfl

theorem inside_of_mapM_values {order : ByteOrder} {data : Bytes} {ps : List Placement}
    {parts : List (List Value)}
    (h : (ps.mapM fun (p : Placement) => p.values order data) = .ok parts) :
    ∀ p ∈ ps, p.Inside data.length := by
  induction ps generalizing parts with
  | nil => exact fun p hp => absurd hp List.not_mem_nil
  | cons p ps ih =>
    rw [List.mapM_cons, p.values_eq order data 0] at h
    simp only [bind, Except.bind, Placement.check] at h
    by_cases hp : p.Inside data.length
    swap
    · simp [if_neg hp] at h
    rw [if_pos hp] at h
    simp only at h
    split at h
    · cases h
    · split at h
      · cases h
      · next others ho =>
        intro q hq
        cases hq with
        | head => exact hp
        | tail _ hq => exact ih ho q hq

end BinaryLayout
