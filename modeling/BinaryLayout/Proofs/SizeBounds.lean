import BinaryLayout.Machine
import BinaryLayout.Proofs.Frames
import BinaryLayout.Proofs.Grammar
import BinaryLayout.Proofs.Refusals

/-!
# The size of a record and what is read of it

The size comes from one walk over the tokens, and reading checks each token against the data on a
walk of its own. Tokens follow each other. So data as long as the record holds all of them, and
then only a string can fail to be read; shorter data does not hold the first token that ends
behind it, and reading fails there unless a string before it has no text. A record of its own is
as long as its size, and packing it is never refused for its bounds.
-/
namespace BinaryLayout

open Fault

/-- The bytes are the encoded form of a text. -/
def Utf8.Valid (raw : Bytes) : Prop := ∃ t, Encodable t ∧ bytes t = raw

lemma Utf8.valid_iff {raw : Bytes} : Valid raw ↔ ∃ t, decode raw = .ok t := by
  simp only [Valid, decode_eq_ok_iff]

lemma Utf8.exists_fault {raw : Bytes} (h : ¬Valid raw) : ∃ fault, decode raw = .error fault := by
  cases hd : decode raw with
  | ok t => exact absurd (valid_iff.mpr ⟨t, hd⟩) h
  | error fault => exact ⟨fault, rfl⟩

/-! ## Numbers that a message shows -/

lemma Numeral.showable_of_lt {n : ℤ} (h : n.natAbs < 10) : Showable n :=
  h.trans_le (Nat.le_self_pow (by decide) 10)

lemma Fault.limited_bufferTooSmall {offset size : ℤ} {length : ℕ}
    (h : Numeral.Showable offset ∧ Numeral.Showable size) :
    (bufferTooSmall offset size length).limited = .bufferTooSmall offset size length := by
  simp only [limited, if_pos h]

lemma Fault.limited_bufferTooSmall_of_not {offset size : ℤ} {length : ℕ}
    (h : ¬(Numeral.Showable offset ∧ Numeral.Showable size)) :
    (bufferTooSmall offset size length).limited = .unshowable none := by
  simp only [limited, if_neg h]

/-! ## Up to the first failure -/

lemma forall_or_exists_first {α : Type} (P : α → Prop) (xs : List α) :
    (∀ x ∈ xs, P x) ∨
      ∃ before x after, xs = before ++ x :: after ∧ (∀ y ∈ before, P y) ∧ ¬P x := by
  induction xs with
  | nil => exact .inl fun x hx => absurd hx List.not_mem_nil
  | cons x xs ih =>
    by_cases hx : P x
    · obtain hall | ⟨before, y, after, rfl, hbefore, hy⟩ := ih
      · exact .inl (List.forall_mem_cons.mpr ⟨hx, hall⟩)
      · exact .inr ⟨x :: before, y, after, rfl, List.forall_mem_cons.mpr ⟨hx, hbefore⟩, hy⟩
    · exact .inr ⟨[], x, xs, rfl, fun y hy => absurd hy List.not_mem_nil, hx⟩

lemma exists_mapM_eq_ok {α β : Type} {g : α → Except Fault β} {xs : List α}
    (h : ∀ x ∈ xs, ∃ y, g x = .ok y) : ∃ ys, xs.mapM g = .ok ys := by
  simp only [mapM_eq_ok_iff]
  induction xs with
  | nil => exact ⟨[], .nil⟩
  | cons x xs ih =>
    obtain ⟨⟨y, hy⟩, hxs⟩ := List.forall_mem_cons.mp h
    obtain ⟨ys, hys⟩ := ih hxs
    exact ⟨y :: ys, .cons hy hys⟩

/-- What succeeds up to a member of a list and fails there fails as that member does. -/
lemma mapM_eq_error_of_first {α β : Type} {g : α → Except Fault β} {before : List α} {x : α}
    {fault : Fault} (hbefore : ∀ y ∈ before, ∃ z, g y = .ok z) (hx : g x = .error fault)
    (after : List α) : (before ++ x :: after).mapM g = .error fault := by
  obtain ⟨zs, hzs⟩ := exists_mapM_eq_ok hbefore
  simp only [List.mapM_append, hzs, List.mapM_cons, hx, bind, Except.bind]

lemma exists_mapM_eq_ok_iff {α β : Type} {g : α → Except Fault β} {xs : List α} :
    (∃ ys, xs.mapM g = .ok ys) ↔ ∀ x ∈ xs, ∃ y, g x = .ok y := by
  refine ⟨fun ⟨ys, hys⟩ => ?_, exists_mapM_eq_ok⟩
  obtain hall | ⟨before, x, after, rfl, hbefore, hx⟩ :=
    forall_or_exists_first (fun x => ∃ y, g x = .ok y) xs
  · exact hall
  · cases hfault : g x with
    | ok y => exact absurd ⟨y, hfault⟩ hx
    | error fault => cases hys.symm.trans (mapM_eq_error_of_first hbefore hfault after)

/-- What fails along a list fails as the first member that fails. -/
lemma mapM_eq_error_iff {α β : Type} {g : α → Except Fault β} {xs : List α} {fault : Fault} :
    xs.mapM g = .error fault ↔ ∃ before x after, xs = before ++ x :: after ∧
      (∀ y ∈ before, ∃ z, g y = .ok z) ∧ g x = .error fault := by
  constructor
  · intro h
    obtain hall | ⟨before, x, after, rfl, hbefore, hx⟩ :=
      forall_or_exists_first (fun x => ∃ z, g x = .ok z) xs
    · obtain ⟨ys, hys⟩ := exists_mapM_eq_ok hall
      rw [hys] at h
      cases h
    · refine ⟨before, x, after, rfl, hbefore, ?_⟩
      cases hfault : g x with
      | ok z => exact absurd ⟨z, hfault⟩ hx
      | error other =>
        have herror := mapM_eq_error_of_first hbefore hfault after
        exact congrArg _ (Except.error.inj (herror.symm.trans h))
  · rintro ⟨before, x, after, rfl, hbefore, hx⟩
    exact mapM_eq_error_of_first hbefore hx after

/-! ## Reading a token -/

/-- The bytes of an element of a scalar type always have a value. -/
lemma Field.exists_decode {s : Specifier} (hpad : s.kind ≠ .pad) (hstring : s.kind ≠ .string)
    {raw : Bytes} (hl : raw.length = s.size) (order : ByteOrder) :
    ∃ v, decode s (.ofBytes raw) order = .ok v := by
  unfold decode
  cases hk : s.kind with
  | pad => exact absurd hk hpad
  | string => exact absurd hk hstring
  | char =>
    cases raw with
    | nil =>
      have := s.size_pos
      rw [List.length_nil] at hl
      omega
    | cons b rest => exact ⟨_, rfl⟩
  | int => simp [Buffer.ofBytes, Buffer.whole, hl]
  | real => simp [Buffer.ofBytes, Buffer.whole, hl]

lemma FieldLayout.exists_decode {e : FieldLayout} {data : Bytes} (he : e.Shaped)
    (hs : e.specifier.kind ≠ .string) (hl : ((e.bytes data).length : ℤ) = e.size)
    (order : ByteOrder) : ∃ v, e.decode order data = .ok v := by
  have hwidth := he.width hs
  unfold decode
  rw [read_of_ne_string hs]
  exact Field.exists_decode he.carries hs (by omega) order

namespace Placement

variable {p : Placement} {order : ByteOrder} {data : Bytes}

def bytes (data : Bytes) (p : Placement) : Bytes := data.slice p.offset p.stop

def Garbled (data : Bytes) (p : Placement) : Prop :=
  p.specifier = .string ∧ ¬Utf8.Valid (p.bytes data)

/-- The token is inside the data and, if it is a string, its bytes are a text. -/
def Legible (data : Bytes) (p : Placement) : Prop := p.Inside data.length ∧ ¬p.Garbled data

lemma values_of_outside (h : ¬p.Inside data.length) :
    p.values order data = .error (Fault.bufferTooSmall p.offset p.size data.length).limited := by
  rw [p.values_eq order data 0, check, if_neg h]
  rfl

lemma values_of_string (hs : p.specifier = .string) (hin : p.Inside data.length) :
    p.values order data = (Field.decodeString (p.bytes data)).map fun t => [.text t] := by
  have hcheck : p.check data.length = .ok () := if_pos hin
  have hstop : p.stop = p.offset + p.count := by simp [stop, size, hs, Specifier.size]
  simp only [values, hcheck, hs, Specifier.kind, bytes, hstop, bind, Except.bind, pure,
    Except.pure]
  cases Field.decodeString (data.slice p.offset (p.offset + p.count)) <;> rfl

lemma values_of_garbled (hs : p.specifier = .string) (hin : p.Inside data.length)
    {fault : Utf8.DecodeFault} (h : Utf8.decode (p.bytes data) = .error fault) :
    p.values order data = .error (.invalidUtf8 (p.bytes data) fault) := by
  simp only [values_of_string hs hin, Field.decodeString, h, Except.map]

lemma exists_values (hc : 0 < p.count) (h : p.Legible data) (order : ByteOrder) :
    ∃ values, p.values order data = .ok values := by
  obtain ⟨hin, hvalid⟩ := h
  by_cases hs : p.specifier = .string
  · obtain ⟨t, ht⟩ := Utf8.valid_iff.mp (not_not.mp fun hn => hvalid ⟨hs, hn⟩)
    simp only [values_of_string hs hin, Field.decodeString, ht]
    exact ⟨_, rfl⟩
  have hcheck : p.check data.length = .ok () := if_pos hin
  rw [p.values_eq order data 0, hcheck]
  refine exists_mapM_eq_ok fun e he => ?_
  obtain ⟨hshape, hlow, hhigh⟩ := field_bounds hc he
  have hstring : e.specifier.kind ≠ .string := by
    rw [specifier_of_mem_fields he]
    exact fun hk => hs (Specifier.eq_string hk)
  exact FieldLayout.exists_decode hshape hstring
    (FieldLayout.length_bytes (hin.1.trans hlow) hshape.positive (hhigh.trans hin.2)) order

end Placement

/-! ## Reading a record -/

/-- The fault of the first string without a text. -/
def FirstGarbled (data : Bytes) (ps : List Placement) (fault : Fault) : Prop :=
  ∃ before p after utf8, ps = before ++ p :: after ∧ (∀ q ∈ before, ¬q.Garbled data) ∧
    p.specifier = .string ∧ Utf8.decode (p.bytes data) = .error utf8 ∧
    fault = .invalidUtf8 (p.bytes data) utf8

lemma exists_firstGarbled {data : Bytes} {ps : List Placement} (h : ¬∀ p ∈ ps, ¬p.Garbled data) :
    ∃ fault, FirstGarbled data ps fault := by
  obtain hnone | ⟨before, p, after, hps, hbefore, hp⟩ :=
    forall_or_exists_first (fun p : Placement => ¬p.Garbled data) ps
  · exact absurd hnone h
  obtain ⟨hs, hvalid⟩ := not_not.mp hp
  obtain ⟨utf8, hutf8⟩ := Utf8.exists_fault hvalid
  exact ⟨_, before, p, after, utf8, hps, hbefore, hs, hutf8, rfl⟩

/-- Why reading tokens stops: at the first one that is outside the data, or that is a string
without a text. -/
inductive Stops (data : Bytes) (ps : List Placement) : Fault → Prop where
  | outside {before after : List Placement} {p : Placement} : ps = before ++ p :: after →
      (∀ q ∈ before, q.Legible data) → ¬p.Inside data.length →
      Stops data ps (Fault.bufferTooSmall p.offset p.size data.length).limited
  | garbled {before after : List Placement} {p : Placement} {fault : Utf8.DecodeFault} :
      ps = before ++ p :: after → (∀ q ∈ before, q.Legible data) → p.Inside data.length →
      p.specifier = .string → Utf8.decode (p.bytes data) = .error fault →
      Stops data ps (.invalidUtf8 (p.bytes data) fault)

namespace Format

variable {f : Format} {offset stop : ℤ} {ps : List Placement} {data : Bytes}

lemma exists_unpackFrom (hw : f.walk offset = ps.map .ok) (hc : Chain offset ps stop)
    (h : ∀ p ∈ ps, p.Legible data) : ∃ values, f.unpackFrom data offset = .ok values := by
  obtain ⟨parts, hparts⟩ := exists_mapM_eq_ok (g := fun (p : Placement) => p.values f.order data)
    fun p hp => p.exists_values (hc.bounds hp).2.1 (h p hp) f.order
  rw [unpackFrom_of_walk hw, hparts]
  exact ⟨_, rfl⟩

/-- Reading fails at the first token that is not legible. -/
lemma unpackFrom_of_stops (hw : f.walk offset = ps.map .ok) (hc : Chain offset ps stop)
    {fault : Fault} (h : Stops data ps fault) : f.unpackFrom data offset = .error fault := by
  have hfirst : ∀ {before after : List Placement} {p : Placement}, ps = before ++ p :: after →
      (∀ q ∈ before, q.Legible data) → p.values f.order data = .error fault →
      f.unpackFrom data offset = .error fault := by
    rintro before after p rfl hbefore hp
    have hread : ∀ q ∈ before, ∃ values, q.values f.order data = .ok values := fun q hq =>
      q.exists_values (hc.bounds (List.mem_append_left _ hq)).2.1 (hbefore q hq) f.order
    rw [unpackFrom_of_walk hw, mapM_eq_error_of_first hread hp after]
    rfl
  cases h with
  | outside hps hbefore hout => exact hfirst hps hbefore (Placement.values_of_outside hout)
  | garbled hps hbefore hin hs hd =>
    exact hfirst hps hbefore (Placement.values_of_garbled hs hin hd)

/-- Reading fails only at the first token that is not legible. -/
theorem unpackFrom_eq_error_iff (hw : f.walk offset = ps.map .ok) (hc : Chain offset ps stop)
    {fault : Fault} : f.unpackFrom data offset = .error fault ↔ Stops data ps fault := by
  refine ⟨fun h => ?_, unpackFrom_of_stops hw hc⟩
  obtain hall | ⟨before, p, after, hps, hbefore, hp⟩ :=
    forall_or_exists_first (fun p : Placement => p.Legible data) ps
  · obtain ⟨values, hvalues⟩ := exists_unpackFrom hw hc hall
    rw [hvalues] at h
    cases h
  have hstops : ∃ other, Stops data ps other := by
    by_cases hin : p.Inside data.length
    · obtain ⟨hs, hvalid⟩ := not_not.mp fun hn => hp ⟨hin, hn⟩
      obtain ⟨other, hother⟩ := Utf8.exists_fault hvalid
      exact ⟨_, .garbled hps hbefore hin hs hother⟩
    · exact ⟨_, .outside hps hbefore hin⟩
  obtain ⟨other, hother⟩ := hstops
  rw [unpackFrom_of_stops hw hc hother] at h
  cases h
  exact hother

/-- Where all tokens up to some place are inside the data, reading stops at the first string
among them that has no text. -/
lemma stops_of_firstGarbled {before after : List Placement} {fault : Fault}
    (hin : ∀ q ∈ before, q.Inside data.length) (h : FirstGarbled data before fault) :
    Stops data (before ++ after) fault := by
  obtain ⟨first, p, others, utf8, rfl, hfirst, hs, hutf8, rfl⟩ := h
  refine .garbled (List.append_assoc first (p :: others) after)
    (fun q hq => ⟨hin q (List.mem_append_left _ hq), hfirst q hq⟩) ?_ hs hutf8
  exact hin p (List.mem_append_right _ List.mem_cons_self)

/-- Data that holds all tokens is read unless a string among them has no text. -/
lemma unpackFrom_of_inside (hw : f.walk offset = ps.map .ok) (hc : Chain offset ps stop)
    (hin : ∀ p ∈ ps, p.Inside data.length) :
    ((∃ values, f.unpackFrom data offset = .ok values) ↔ ∀ p ∈ ps, ¬p.Garbled data) ∧
      ∀ fault, f.unpackFrom data offset = .error fault → FirstGarbled data ps fault := by
  by_cases hall : ∀ p ∈ ps, ¬p.Garbled data
  · obtain ⟨values, hvalues⟩ := exists_unpackFrom hw hc fun p hp => ⟨hin p hp, hall p hp⟩
    refine ⟨iff_of_true ⟨values, hvalues⟩ hall, fun fault h => ?_⟩
    cases hvalues.symm.trans h
  · obtain ⟨fault, hfault⟩ := exists_firstGarbled hall
    have hstops : Stops data (ps ++ []) fault := stops_of_firstGarbled hin hfault
    rw [List.append_nil] at hstops
    have herror := unpackFrom_of_stops hw hc hstops
    refine ⟨iff_of_false (fun ⟨values, hvalues⟩ => ?_) hall, fun other h => ?_⟩
    · cases hvalues.symm.trans herror
    · obtain rfl := Except.error.inj (herror.symm.trans h)
      exact hfault

/-- Data that ends before the record is refused at the first token that ends behind it, or at a
string without a text before that. -/
lemma unpackFrom_of_short (hw : f.walk offset = ps.map .ok) (hc : Chain offset ps stop)
    (h0 : 0 ≤ offset) (hstart : offset ≤ data.length) (hshort : (data.length : ℤ) < stop) :
    ∃ (before : List Placement) (p : Placement) (after : List Placement),
      ps = before ++ p :: after ∧ (∀ q ∈ before, q.stop ≤ data.length) ∧
      data.length < p.stop ∧
      ((∀ q ∈ before, ¬q.Garbled data) → f.unpackFrom data offset =
        .error (Fault.bufferTooSmall p.offset p.size data.length).limited) ∧
      ((∃ q ∈ before, q.Garbled data) →
        ∃ fault, FirstGarbled data before fault ∧ f.unpackFrom data offset = .error fault) := by
  have hlow : ∀ p ∈ ps, 0 ≤ p.offset := fun p hp => h0.trans (hc.bounds hp).1
  obtain hall | ⟨before, p, after, rfl, hbefore, hp⟩ :=
    forall_or_exists_first (fun p : Placement => p.stop ≤ data.length) ps
  · have := hc.stop_le hstart fun p hp => ⟨hlow p hp, hall p hp⟩
    omega
  have hin : ∀ q ∈ before, q.Inside data.length := fun q hq =>
    ⟨hlow q (List.mem_append_left _ hq), hbefore q hq⟩
  refine ⟨before, p, after, rfl, hbefore, Int.not_le.mp hp, fun hvalid => ?_,
    fun ⟨q, hq, hgarbled⟩ => ?_⟩
  · exact unpackFrom_of_stops hw hc
      (.outside rfl (fun q hq => ⟨hin q hq, hvalid q hq⟩) fun h => hp h.2)
  · obtain ⟨fault, hfault⟩ := exists_firstGarbled fun hnone => hnone q hq hgarbled
    exact ⟨fault, hfault, unpackFrom_of_stops hw hc (stops_of_firstGarbled hin hfault)⟩

/-- Packing a record of its own is not refused for its bounds, but for want of room or of values
or because a field refuses its value. -/
lemma pack_refused [Host] (hw : f.walk 0 = ps.map .ok) (hc : Chain 0 ps stop) {values : List Value}
    {fault : Fault} (h : f.pack values = .error fault) :
    (∀ offset size length, fault ≠ .bufferTooSmall offset size length) ∧
      (NoRoom fault ∨ fault = .insufficientValues (values.length + 1) values.length ∨
        ∃ e ∈ fieldsOf 0 ps, ∃ v ∈ values, e.encode f.order v = .error fault) := by
  obtain hroom | hplan := pack_eq_error hw hc h
  · exact ⟨fun _ _ _ hfault => (by rw [hfault] at hroom; cases hroom), .inl hroom⟩
  have hstart := hc.start_le_stop
  rw [plan_of_inside hw (hc.inside (le_refl 0) (by omega))] at hplan
  obtain rfl | ⟨e, he, v, hv, hencode⟩ := exists_of_planFields_eq_error hplan
  · exact ⟨nofun, .inr (.inl rfl)⟩
  · refine ⟨fun _ _ _ hfault => ?_, .inr (.inr ⟨e, he, v, hv, hencode⟩)⟩
    have hvalue := FieldLayout.ofValue_of_encode hencode
    rw [hfault] at hvalue
    cases hvalue

/-- The size of a record is the exact bound of what is read. Packing into a record of its own
never meets its bounds. Data as long as the record is read unless a string has no text, and
shorter data never is: it fails at the first token that ends behind it, or at a string without a
text before that. Wherever a record is read from, nothing else makes reading fail. -/
theorem size_bounds_unpack [Host] {d : Text} (hd : Descriptor.compile d = .ok f) :
    ∃ ps fields size, f.placements 0 = .ok ps ∧ f.layout = .ok fields ∧ f.size = .ok size ∧
      (∀ values fault, f.pack values = .error fault →
        (∀ offset size length, fault ≠ .bufferTooSmall offset size length) ∧
        (NoRoom fault ∨ fault = .insufficientValues (values.length + 1) values.length ∨
          ∃ e ∈ fields, ∃ v ∈ values, FieldLayout.encode f.order e v = .error fault)) ∧
      (∀ data : Bytes, size ≤ data.length →
        ((∃ values, f.unpack data = .ok values) ↔ ∀ p ∈ ps, ¬p.Garbled data) ∧
        ∀ fault, f.unpack data = .error fault → FirstGarbled data ps fault) ∧
      (∀ data : Bytes, data.length < size →
        ∃ (before : List Placement) (p : Placement) (after : List Placement),
          ps = before ++ p :: after ∧ (∀ q ∈ before, q.stop ≤ data.length) ∧
          data.length < p.stop ∧
          ((∀ q ∈ before, ¬q.Garbled data) → f.unpack data =
            .error (Fault.bufferTooSmall p.offset p.size data.length).limited) ∧
          ((∃ q ∈ before, q.Garbled data) →
            ∃ fault, FirstGarbled data before fault ∧ f.unpack data = .error fault)) ∧
      ∀ offset, ∃ qs, f.placements offset = .ok qs ∧ ∀ (data : Bytes) fault,
        f.unpackFrom data offset = .error fault ↔ Stops data qs fault := by
  have hwell := Descriptor.wellFormed_of_compile hd
  obtain ⟨ps, stop, hw, hc⟩ := hwell.exists_chain 0
  refine ⟨ps, fieldsOf 0 ps, stop, placements_of_walk hw, fieldsFrom_of_walk hw,
    size_of_walk hw hc, fun values fault h => pack_refused hw hc h,
    fun data hsize => unpackFrom_of_inside hw hc (hc.inside (le_refl 0) hsize),
    fun data hsize => unpackFrom_of_short hw hc (le_refl 0) (by omega) hsize, fun offset => ?_⟩
  obtain ⟨qs, _, hwalk, hchain⟩ := hwell.exists_chain offset
  exact ⟨qs, placements_of_walk hwalk, fun data fault => unpackFrom_eq_error_iff hwalk hchain⟩

/-- The greatest count that has a numeral. -/
def manyNines : Text := List.replicate Numeral.digitLimit (CodePoint.ofChar '9')

lemma ofAsciiDigits_nines (n : ℕ) :
    Numeral.ofAsciiDigits (List.replicate n (CodePoint.ofChar '9')) + 1 = 10 ^ n := by
  induction n with
  | zero => rfl
  | succ n ih =>
    have hnine : Numeral.asciiDigitValue (CodePoint.ofChar '9') = 9 := by decide
    simp only [Numeral.ofAsciiDigits, Numeral.ofDigits, List.map_replicate, hnine] at ih ⊢
    rw [List.replicate_succ', List.foldl_append, List.foldl_cons, List.foldl_nil, pow_succ, ← ih]
    omega

/-- Eight times the greatest count that has a numeral is a number that has none. -/
lemma not_showable_manyNines :
    0 < Numeral.ofAsciiDigits manyNines ∧
      ¬Numeral.Showable (Numeral.ofAsciiDigits manyNines * 8) := by
  have hlarge : 1 < 10 ^ Numeral.digitLimit := Nat.one_lt_pow (by decide) (by decide)
  have hnines : Numeral.ofAsciiDigits manyNines + 1 = 10 ^ Numeral.digitLimit :=
    ofAsciiDigits_nines Numeral.digitLimit
  unfold Numeral.Showable
  -- Left in place, the power would be worked out to thousands of digits.
  generalize 10 ^ Numeral.digitLimit = limit at hlarge hnines ⊢
  omega

lemma compile_manyNines :
    ∃ n : ℕ, 0 < n ∧ ¬Numeral.Showable (n * 8) ∧
      Descriptor.compile (manyNines ++ [CodePoint.ofChar 'q']) =
        .ok ⟨.default, [⟨n, .known .int64⟩], manyNines ++ [CodePoint.ofChar 'q']⟩ := by
  have hdigits : Descriptor.Digits manyNines := fun c hc => by
    rw [List.eq_of_mem_replicate hc]
    decide
  have hne : manyNines ≠ [] := by
    rw [manyNines, Ne, List.replicate_eq_nil_iff]
    decide
  have hcount : Descriptor.Entry.count ⟨manyNines, .int64⟩ = Numeral.ofAsciiDigits manyNines :=
    if_neg hne
  obtain ⟨hpos, hsize⟩ := not_showable_manyNines
  have hd := Descriptor.compile_entry (s := .int64) hdigits
    ⟨(List.length_replicate).le, by rw [hcount]; exact hpos.ne'⟩
  rw [Descriptor.Entry.token, hcount] at hd
  generalize Numeral.ofAsciiDigits manyNines = n at hpos hsize hd
  exact ⟨n, hpos, hsize, hd⟩

/-- Data that ends inside a field, after a string with and without a text. And a field whose
size has a digit more than its count: no message can name the size, so reading is refused for
that. -/
theorem size_bounds_unpack_short :
    (∃ f, Descriptor.compile "<2sH" = .ok f ∧
      f.unpack [0x41, 0x42, 1] = .error (.bufferTooSmall 2 2 3) ∧
      f.unpack [0xFF, 0x41, 1] =
        .error (.invalidUtf8 [0xFF, 0x41] ⟨0, 1, 0xFF, .invalidStart⟩)) ∧
    ∃ f, Descriptor.compile (manyNines ++ [CodePoint.ofChar 'q']) = .ok f ∧
      f.unpack [] = .error (.unshowable none) := by
  constructor
  · have hd : Descriptor.compile "<2sH" =
        .ok ⟨.littleEndian, [⟨2, .known .string⟩, ⟨1, .known .uint16⟩], "<2sH"⟩ := by cbv
    obtain ⟨-, -, -, -, -, -, -, -, -, hreads⟩ := size_bounds_unpack hd
    obtain ⟨ps, hps, hstops⟩ := hreads 0
    obtain rfl : ps = [⟨0, 2, .string⟩, ⟨2, 1, .uint16⟩] := Except.ok.inj (hps.symm.trans (by rfl))
    have hlegible : Placement.Legible [0x41, 0x42, 1] ⟨0, 2, .string⟩ :=
      ⟨by decide, fun h => h.2 (Utf8.valid_iff.mpr ⟨[0x41, 0x42], by cbv⟩)⟩
    have hfault : (Fault.bufferTooSmall 2 2 3).limited = .bufferTooSmall 2 2 3 :=
      limited_bufferTooSmall
        ⟨Numeral.showable_of_lt (by decide), Numeral.showable_of_lt (by decide)⟩
    refine ⟨_, hd, (hstops _ _).mpr ?_, (hstops _ _).mpr ?_⟩
    · rw [← hfault]
      exact .outside (p := ⟨2, 1, .uint16⟩) (List.singleton_append).symm
        (List.forall_mem_singleton.mpr hlegible) (by decide)
    · exact .garbled (List.nil_append _).symm (fun q hq => absurd hq List.not_mem_nil)
        (by decide) rfl (by cbv)
  · obtain ⟨n, hpos, hsize, hd⟩ := compile_manyNines
    obtain ⟨-, -, -, -, -, -, -, -, -, hreads⟩ := size_bounds_unpack hd
    obtain ⟨ps, hps, hstops⟩ := hreads 0
    obtain rfl : ps = [⟨0, n, .int64⟩] := Except.ok.inj (hps.symm.trans (by rfl))
    have houtside : ¬Placement.Inside ⟨0, n, .int64⟩ ([] : Bytes).length := by
      intro h
      have hstop : (0 + n * 8 : ℤ) ≤ 0 := h.2
      omega
    have hfault : (Fault.bufferTooSmall 0 (n * 8) 0).limited = .unshowable none :=
      limited_bufferTooSmall_of_not fun h => hsize h.2
    refine ⟨_, hd, (hstops _ _).mpr ?_⟩
    rw [← hfault]
    exact .outside (p := ⟨0, n, .int64⟩) (List.nil_append _).symm
      (fun q hq => absurd hq List.not_mem_nil) houtside

end Format

end BinaryLayout
