import BinaryLayout.Proofs.Records

/-!
# What records are refused with

A token is refused for want of room, a value because it has no bytes in its field, and bytes
because they have no value there. Packing has one more reason to stop, which is that there are
fewer values than fields. An accepted format gives no operation any other reason, but for the
buffer that is read-only and the memory that a record of its own does not get.
-/
namespace BinaryLayout

namespace Fault

/-- What a token outside the buffer is refused with. -/
inductive OfToken : Fault → Prop where
  | bufferTooSmall (offset size : ℤ) (length : ℕ) : OfToken (.bufferTooSmall offset size length)
  | unshowable : OfToken (.unshowable none)

/-- What a value is refused with that has no bytes in its field. -/
inductive OfValue : Fault → Prop where
  | notByte (v : Value) : OfValue (.notByte v)
  | notString (v : Value) : OfValue (.notString v)
  | unpackable (v : Value) (s : Specifier) (misfit : Misfit) : OfValue (.unpackable v s misfit)
  | unshowable (misfit? : Option Misfit) : OfValue (.unshowable misfit?)
  | surrogates (run : Utf8.SurrogateRun) : OfValue (.surrogates run)
  | noScalarEncoding (s : Specifier) : OfValue (.noScalarEncoding s)

/-- What bytes are refused with that have no value in their field. -/
inductive OfBytes : Fault → Prop where
  | emptyByte (holding : Holding) : OfBytes (.emptyByte holding)
  | undecodable (raw : Bytes) (s : Specifier) (misfit : Misfit) :
      OfBytes (.undecodable raw s misfit)
  | noScalarDecoding (s : Specifier) : OfBytes (.noScalarDecoding s)
  | invalidUtf8 (raw : Bytes) (fault : Utf8.DecodeFault) : OfBytes (.invalidUtf8 raw fault)

end Fault

open Fault

/-! ## Tokens, values and bytes -/

lemma ofToken_ite {c : Prop} [Decidable c] {fault : Fault} (h : OfToken fault) :
    OfToken (if c then fault else .unshowable none) := by
  split
  · exact h
  · exact .unshowable

lemma ofValue_ite {c : Prop} [Decidable c] {fault : Fault} (h : OfValue fault)
    (misfit? : Option Misfit) : OfValue (if c then fault else .unshowable misfit?) := by
  split
  · exact h
  · exact .unshowable _

lemma Placement.ofToken_of_check {p : Placement} {length : ℕ} {fault : Fault}
    (h : p.check length = .error fault) : OfToken fault := by
  unfold check at h
  split at h
  · cases h
  · obtain rfl := Except.error.inj h
    rw [Fault.limited]
    exact ofToken_ite (.bufferTooSmall p.offset p.size length)

lemma Field.ofValue_of_encode {s : Specifier} {v : Value} {order : ByteOrder} {fault : Fault}
    (h : encode s v order = .error fault) : OfValue fault := by
  have hreport : ∀ r : Except Misfit Bytes, reportPacking s v r = .error fault →
      OfValue fault := by
    intro r hr
    cases r with
    | ok raw => cases hr
    | error misfit =>
      obtain rfl := Except.error.inj hr
      exact ofValue_ite (.unpackable v s misfit) _
  unfold encode at h
  split at h
  · split at h
    · cases h
    · obtain rfl := Except.error.inj h
      exact ofValue_ite (.notByte v) _
  · exact hreport _ h
  · exact hreport _ h
  · cases h; exact .noScalarEncoding _
  · cases h; exact .noScalarEncoding _

lemma Field.ofValue_of_encodeString {v : Value} {width : ℤ} {fault : Fault}
    (h : encodeString v width = .error fault) : OfValue fault := by
  unfold encodeString at h
  cases hb : stringBytes v with
  | ok data => rw [hb] at h; cases h
  | error other =>
    rw [hb] at h
    cases h
    unfold stringBytes at hb
    split at hb
    · split at hb
      · cases hb
      · cases hb; exact .surrogates _
    · cases hb
    · obtain rfl := Except.error.inj hb
      exact ofValue_ite (.notString _) _

/-- A field refuses only values that have no bytes in it. -/
theorem FieldLayout.ofValue_of_encode {order : ByteOrder} {e : FieldLayout} {v : Value}
    {fault : Fault} (h : e.encode order v = .error fault) : OfValue fault := by
  unfold encode at h
  split at h
  · exact Field.ofValue_of_encodeString h
  · exact Field.ofValue_of_encode h

lemma Field.ofBytes_of_decode {s : Specifier} {b : Buffer} {order : ByteOrder} {fault : Fault}
    (h : decode s b order = .error fault) : OfBytes fault := by
  unfold decode at h
  split at h
  · split at h
    · cases h; exact .emptyByte _
    · cases h
  · split at h
    · cases h
    · cases h; exact .undecodable _ _ _
  · split at h
    · cases h
    · cases h; exact .undecodable _ _ _
  · cases h; exact .noScalarDecoding _
  · cases h; exact .noScalarDecoding _

/-- A field refuses only bytes that have no value in it. -/
theorem FieldLayout.ofBytes_of_decode {order : ByteOrder} {data : Bytes} {e : FieldLayout}
    {fault : Fault} (h : e.decode order data = .error fault) : OfBytes fault := by
  unfold decode read at h
  split at h
  · unfold Field.decodeString at h
    split at h
    · cases h
    · cases h; exact .invalidUtf8 _ _
  · exact Field.ofBytes_of_decode h

/-! ## Packing -/

/-- Every value that there is a field for has bytes in it. -/
def Fitting (order : ByteOrder) (fields : List FieldLayout) (values : List Value) : Prop :=
  ∀ (i : ℕ) (e : FieldLayout) (v : Value), fields[i]? = some e → values[i]? = some v →
    ∃ raw, e.encode order v = .ok raw

lemma fitting_cons_iff {order : ByteOrder} {e : FieldLayout} {fields : List FieldLayout}
    {v : Value} {values : List Value} :
    Fitting order (e :: fields) (v :: values) ↔
      (∃ raw, e.encode order v = .ok raw) ∧ Fitting order fields values := by
  constructor
  · exact fun h => ⟨h 0 e v rfl rfl, fun i e' v' he hv => h (i + 1) e' v' he hv⟩
  · rintro ⟨hhead, htail⟩ i e' v' he hv
    cases i with
    | zero =>
      cases he
      cases hv
      exact hhead
    | succ i => exact htail i e' v' he hv

lemma planFields_cons_cons (order : ByteOrder) (given : ℕ) (e : FieldLayout)
    (fields : List FieldLayout) (v : Value) (values : List Value) :
    planFields order given (e :: fields) (v :: values) = (e.encode order v).bind fun raw =>
      (planFields order given fields values).map fun plan =>
        ⟨⟨e.offset.toNat, raw⟩ :: plan.writes, plan.rest⟩ := by
  simp only [planFields, nextValue, bind, Except.bind, pure, Except.pure]
  cases e.encode order v with
  | error fault => rfl
  | ok raw => cases planFields order given fields values <;> rfl

/-- Values are packed into fields when there are enough of them and they fit. -/
theorem exists_planFields_iff {order : ByteOrder} {given : ℕ} {fields : List FieldLayout}
    {values : List Value} :
    (∃ plan, planFields order given fields values = .ok plan) ↔
      fields.length ≤ values.length ∧ Fitting order fields values := by
  induction fields generalizing values with
  | nil => exact ⟨fun _ => ⟨Nat.zero_le _, fun i e v he _ => (by cases he)⟩, fun _ => ⟨_, rfl⟩⟩
  | cons e fields ih =>
    cases values with
    | nil => exact ⟨fun ⟨plan, h⟩ => (by cases h), fun ⟨h, _⟩ => (by cases h)⟩
    | cons v values =>
      rw [fitting_cons_iff, planFields_cons_cons, List.length_cons, List.length_cons,
        Nat.add_le_add_iff_right]
      cases e.encode order v with
      | error fault =>
        exact ⟨fun ⟨plan, h⟩ => (by cases h), fun ⟨_, ⟨raw, h⟩, _⟩ => (by cases h)⟩
      | ok raw =>
        simp only [Except.bind, Except.ok.injEq, exists_eq', true_and]
        rw [← ih]
        cases planFields order given fields values with
        | error fault => exact ⟨fun ⟨plan, h⟩ => (by cases h), fun ⟨plan, h⟩ => (by cases h)⟩
        | ok plan => exact ⟨fun _ => ⟨plan, rfl⟩, fun _ => ⟨_, rfl⟩⟩

/-- Packing runs out of values when there are too few of them and all fit. -/
theorem planFields_eq_insufficientValues_iff {order : ByteOrder} {given needed n : ℕ}
    {fields : List FieldLayout} {values : List Value} :
    planFields order given fields values = .error (.insufficientValues needed n) ↔
      (values.length < fields.length ∧ Fitting order fields values) ∧
        needed = given + 1 ∧ n = given := by
  induction fields generalizing values with
  | nil => exact ⟨fun h => (by cases h), fun h => absurd h.1.1 (Nat.not_lt_zero _)⟩
  | cons e fields ih =>
    cases values with
    | nil =>
      constructor
      · intro h
        cases h
        exact ⟨⟨Nat.zero_lt_succ _, fun i e' v he hv => (by cases hv)⟩, rfl, rfl⟩
      · rintro ⟨-, rfl, rfl⟩
        rfl
    | cons v values =>
      rw [fitting_cons_iff, planFields_cons_cons, List.length_cons, List.length_cons,
        Nat.add_lt_add_iff_right]
      cases hraw : e.encode order v with
      | error fault =>
        -- A field is never refused for want of values.
        refine ⟨fun h => ?_, fun ⟨⟨_, ⟨raw, h⟩, _⟩, _⟩ => (by cases h)⟩
        cases h
        cases FieldLayout.ofValue_of_encode hraw
      | ok raw =>
        simp only [Except.bind, Except.ok.injEq, exists_eq', true_and]
        rw [← ih]
        cases planFields order given fields values with
        | error fault => exact Iff.rfl
        | ok plan => exact ⟨fun h => (by cases h), fun h => (by cases h)⟩

/-- Values are not packed into fields for want of values, or because a field refuses one. -/
theorem exists_of_planFields_eq_error {order : ByteOrder} {given : ℕ} {fields : List FieldLayout}
    {values : List Value} {fault : Fault}
    (h : planFields order given fields values = .error fault) :
    fault = .insufficientValues (given + 1) given ∨
      ∃ e ∈ fields, ∃ v ∈ values, FieldLayout.encode order e v = .error fault := by
  induction fields generalizing values with
  | nil => cases h
  | cons e fields ih =>
    cases values with
    | nil => cases h; exact .inl rfl
    | cons v values =>
      rw [planFields_cons_cons] at h
      cases hraw : e.encode order v with
      | error other =>
        rw [hraw] at h
        cases h
        exact .inr ⟨e, List.mem_cons_self, v, List.mem_cons_self, hraw⟩
      | ok raw =>
        rw [hraw] at h
        cases hrest : planFields order given fields values with
        | ok plan => simp only [hrest, Except.bind, Except.map] at h; cases h
        | error other =>
          simp only [hrest, Except.bind, Except.map] at h
          cases h
          obtain hfew | ⟨e', he', v', hv', hencode⟩ := ih hrest
          · exact .inl hfew
          · exact .inr ⟨e', List.mem_cons_of_mem _ he', v', List.mem_cons_of_mem _ hv', hencode⟩

theorem planFields_eq_error {order : ByteOrder} {given : ℕ} {fields : List FieldLayout}
    {values : List Value} {fault : Fault}
    (h : planFields order given fields values = .error fault) :
    fault = .insufficientValues (given + 1) given ∨ OfValue fault := by
  obtain hfew | ⟨e, -, v, -, hencode⟩ := exists_of_planFields_eq_error h
  · exact .inl hfew
  · exact .inr (FieldLayout.ofValue_of_encode hencode)

namespace Format

variable {f : Format} {offset stop : ℤ} {ps : List Placement}

theorem plan_eq_error (hw : f.walk offset = ps.map .ok) {length : ℕ} {values : List Value}
    {fault : Fault} (h : f.plan length offset values = .error fault) :
    OfToken fault ∨ fault = .insufficientValues (values.length + 1) values.length ∨
      OfValue fault := by
  rw [Format.plan, hw] at h
  obtain ⟨p, -, hp⟩ | hfields := planWalk_eq_error 0 h
  · exact .inl (Placement.ofToken_of_check hp)
  · exact .inr (planFields_eq_error hfields)

theorem packInto_eq_error (hw : f.walk offset = ps.map .ok) (hc : Chain offset ps stop)
    {b : Buffer} {values : List Value} {fault : Fault}
    (h : (f.packInto b offset values).outcome = .error fault) :
    fault = .readOnly b.holding.name ∨
      f.plan b.data.length offset values = .error fault := by
  cases hb : b.holding.readOnly with
  | true =>
    simp only [packInto, hb, if_true] at h
    cases h
    exact .inl rfl
  | false =>
    cases hplan : f.plan b.data.length offset values with
    | ok plan => rw [packInto_of_plan hw hc hb hplan] at h; cases h
    | error other =>
      simp only [packInto, hb, hplan, Bool.false_eq_true, if_false] at h
      cases h
      exact .inr rfl

/-- A record of its own is refused for want of room, or its plan is refused. -/
theorem pack_eq_error [Host] (hw : f.walk 0 = ps.map .ok) (hc : Chain 0 ps stop)
    {values : List Value} {fault : Fault} (h : f.pack values = .error fault) :
    NoRoom fault ∨ f.plan stop.toNat 0 values = .error fault := by
  have hends := packEnds hw hc values
  rw [h] at hends
  cases hends with
  | noRoom _ hfault => exact .inl hfault
  | refused _ hplan => exact .inr hplan
  | notKept _ _ => exact .inl .outOfMemory

/-- There is a value for every field, and it has bytes there. -/
def Packable (order : ByteOrder) (fields : List FieldLayout) (values : List Value) : Prop :=
  fields.length ≤ values.length ∧ Fitting order fields values

/-- Values are packed into a buffer when every token is inside it and they fill the fields. -/
theorem exists_packInto_iff (hw : f.walk offset = ps.map .ok) (hc : Chain offset ps stop)
    {b : Buffer} (hb : b.holding.readOnly = false) {values : List Value} :
    (∃ n, (f.packInto b offset values).outcome = .ok n) ↔
      (∀ p ∈ ps, p.Inside b.data.length) ∧ Packable f.order (fieldsOf 0 ps) values := by
  constructor
  · rintro ⟨n, hn⟩
    obtain ⟨-, plan, hplan⟩ := plan_of_packInto hn
    obtain ⟨hin, hfields⟩ := (plan_eq_ok_iff hw).mp hplan
    exact ⟨hin, exists_planFields_iff.mp ⟨plan, hfields⟩⟩
  · rintro ⟨hin, hvalues⟩
    obtain ⟨plan, hfields⟩ := exists_planFields_iff.mpr hvalues
    rw [packInto_of_plan hw hc hb ((plan_eq_ok_iff hw).mpr ⟨hin, hfields⟩)]
    exact ⟨_, rfl⟩

/-- Values that fill the fields are packed into a record of its own, unless there is no room for
it. -/
lemma pack_of_packable [Host] (hw : f.walk 0 = ps.map .ok) (hc : Chain 0 ps stop)
    {values : List Value} (h : Packable f.order (fieldsOf 0 ps) values) :
    (stop ≤ Host.storage → ∃ record, f.pack values = .ok record) ∧
      (Host.storage < stop → ∃ fault, f.pack values = .error fault ∧ NoRoom fault) := by
  have hstart := hc.start_le_stop
  have hin : ∀ p ∈ ps, p.Inside stop.toNat := hc.inside (le_refl 0) (by omega)
  obtain ⟨plan, hfields⟩ := exists_planFields_iff.mpr h
  have hplan := (plan_eq_ok_iff hw).mpr ⟨hin, hfields⟩
  obtain ⟨-, hsome, hnone⟩ := pack_of_plan hw hc hplan
  exact ⟨fun hle => ⟨_, hsome hle⟩, hnone⟩

/-- Values are packed into a record of its own when there is room for it and they fill the
fields. -/
theorem exists_pack_iff [Host] (hw : f.walk 0 = ps.map .ok) (hc : Chain 0 ps stop)
    {values : List Value} :
    (∃ record, f.pack values = .ok record) ↔
      stop ≤ Host.storage ∧ Packable f.order (fieldsOf 0 ps) values := by
  constructor
  · rintro ⟨record, h⟩
    have hends := packEnds hw hc values
    rw [h] at hends
    cases hends with
    | packed hle hplan =>
      exact ⟨hle, exists_planFields_iff.mp ⟨_, ((plan_eq_ok_iff hw).mp hplan).2⟩⟩
  · rintro ⟨hle, hvalues⟩
    exact (pack_of_packable hw hc hvalues).1 hle

/-! ## Unpacking -/

lemma exists_of_mapM_eq_error {α β : Type} {g : α → Except Fault β} {xs : List α} {fault : Fault}
    (h : xs.mapM g = .error fault) : ∃ x ∈ xs, g x = .error fault := by
  induction xs with
  | nil => cases h
  | cons x xs ih =>
    rw [List.mapM_cons] at h
    simp only [bind, Except.bind, pure, Except.pure] at h
    split at h
    · next other hx => cases h; exact ⟨x, List.mem_cons_self, hx⟩
    · split at h
      · next other hxs =>
        cases h
        obtain ⟨y, hy, hfault⟩ := ih hxs
        exact ⟨y, List.mem_cons_of_mem _ hy, hfault⟩
      · cases h

/-- A record is not unpacked because of one of its tokens or the bytes of a field. -/
theorem unpackFrom_eq_error (hw : f.walk offset = ps.map .ok) {data : Bytes} {fault : Fault}
    (h : f.unpackFrom data offset = .error fault) : OfToken fault ∨ OfBytes fault := by
  rw [unpackFrom_of_walk hw] at h
  cases hparts : ps.mapM fun (p : Placement) => p.values f.order data with
  | ok parts => rw [hparts] at h; cases h
  | error other =>
    rw [hparts] at h
    cases h
    obtain ⟨p, -, hvalues⟩ := exists_of_mapM_eq_error hparts
    rw [p.values_eq f.order data 0] at hvalues
    cases hcheck : p.check data.length with
    | error _ =>
      rw [hcheck] at hvalues
      cases hvalues
      exact .inl (Placement.ofToken_of_check hcheck)
    | ok _ =>
      rw [hcheck] at hvalues
      obtain ⟨e, -, he⟩ := exists_of_mapM_eq_error hvalues
      exact .inr (FieldLayout.ofBytes_of_decode he)

/-- Data is cut into records unless records are empty, or what is left over is none. -/
lemma chunks_eq_error {data : Bytes} {fault : Fault} {size : ℤ} (hs : f.size = .ok size)
    (h : f.chunks data = .error fault) : fault = .emptyRecord f.descriptor ∨ OfToken fault := by
  simp only [chunks, hs, bind, Except.bind, pure, Except.pure] at h
  split at h
  · cases h
    exact .inl rfl
  · split at h
    · obtain rfl := Except.error.inj h
      rw [Fault.limited]
      exact .inr (ofToken_ite (.bufferTooSmall _ size data.length))
    · cases h

/-- Record after record, reading ends where a record is not unpacked. -/
lemma exists_of_unpackChunks {chunks : List Bytes} {fault : Fault}
    (h : (f.unpackChunks chunks).fault? = some fault) :
    ∃ chunk ∈ chunks, f.unpackFrom chunk 0 = .error fault := by
  induction chunks with
  | nil => cases h
  | cons chunk rest ih =>
    rw [unpackChunks] at h
    cases hchunk : f.unpack chunk with
    | error other =>
      rw [hchunk] at h
      cases h
      exact ⟨chunk, List.mem_cons_self, hchunk⟩
    | ok values =>
      rw [hchunk] at h
      obtain ⟨later, hmem, hlater⟩ := ih h
      exact ⟨later, List.mem_cons_of_mem _ hmem, hlater⟩

/-- Reading records ends for the size of the data, or because one record is not unpacked. -/
theorem unpackAll_fault (hw : f.walk 0 = ps.map .ok) (hc : Chain 0 ps stop) {data : Bytes}
    {fault : Fault} (h : (f.unpackAll data).fault? = some fault) :
    fault = .emptyRecord f.descriptor ∨ OfToken fault ∨ OfBytes fault := by
  unfold unpackAll at h
  cases hchunks : f.chunks data with
  | error other =>
    rw [hchunks] at h
    cases h
    rcases chunks_eq_error (size_of_walk hw hc) hchunks with hempty | htoken
    · exact .inl hempty
    · exact .inr (.inl htoken)
  | ok chunks =>
    rw [hchunks] at h
    obtain ⟨chunk, -, hchunk⟩ := exists_of_unpackChunks h
    exact .inr (unpackFrom_eq_error hw hchunk)

end Format

end BinaryLayout
