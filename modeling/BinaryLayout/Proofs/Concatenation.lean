import BinaryLayout.Proofs.Grammar
import BinaryLayout.Proofs.Translations

/-!
# Records one behind the other

Tokens that follow other tokens are at the places that they have on their own, moved by the size of
what is before them, if that is a multiple of their alignments. Then the two halves of a record are
records: sizes add up, layouts follow each other, and the halves are packed and unpacked one by
one. A descriptor that is written behind another one stands for its tokens behind those of the
other, since blanks between entries belong to either of them.
-/
namespace BinaryLayout

/-- The tokens of one format and behind them those of another, in the byte order of the first. -/
def Format.append (f g : Format) : Format :=
  ⟨f.order, f.tokens ++ g.tokens, f.descriptor ++ g.descriptor⟩

/-! ## Places and fields -/

/-- Tokens behind others are placed from where the others stop. -/
lemma place_append {order : ByteOrder} {offset stop : ℤ} {tokens others : List Token}
    {ps : List Placement} (h : place order offset tokens = ps.map .ok)
    (hc : Chain offset ps stop) :
    place order offset (tokens ++ others) = ps.map .ok ++ place order stop others := by
  induction tokens generalizing offset ps with
  | nil =>
    obtain rfl : ps = [] := List.map_eq_nil_iff.mp h.symm
    cases hc
    rfl
  | cons t rest ih =>
    obtain ⟨s, qs, hs, rfl, hqs⟩ := place_cons_eq_ok h
    cases hc with
    | cons _ _ hc =>
      rw [List.cons_append, place, hs]
      exact congrArg (_ :: ·) (ih hqs hc)

lemma Chain.append {start middle stop : ℤ} {ps qs : List Placement} (h : Chain start ps middle)
    (h' : Chain middle qs stop) : Chain start (ps ++ qs) stop := by
  induction h with
  | nil => exact h'
  | cons hstart hcount _ ih => exact .cons hstart hcount (ih h')

lemma fieldsOf_append (k : ℕ) (ps qs : List Placement) :
    fieldsOf k (ps ++ qs) = fieldsOf k ps ++ fieldsOf (k + (fieldsOf k ps).length) qs := by
  rw [fieldsOf, List.flatMap_append, numbered_append, fieldsOf, fieldsOf, length_numbered]

/-! ## Writes -/

def Write.moved (distance : ℕ) (w : Write) : Write := ⟨w.offset + distance, w.raw⟩

/-- What is planned for some values is planned as well when others follow them. -/
lemma planFields_append_values {order : ByteOrder} {given : ℕ} {fields : List FieldLayout}
    {values : List Value} {plan : Plan} (h : planFields order given fields values = .ok plan)
    (given' : ℕ) (more : List Value) :
    planFields order given' fields (values ++ more) = .ok ⟨plan.writes, plan.rest ++ more⟩ := by
  induction fields generalizing values plan with
  | nil => cases h; rfl
  | cons e fields ih =>
    obtain ⟨v, rest, raw, others, rfl, hraw, ho, rfl⟩ := planFields_cons_eq_ok.mp h
    exact planFields_cons_eq_ok.mpr ⟨v, _, raw, _, rfl, hraw, ih ho, rfl⟩

/-- What is planned for fields that are moved are the writes to the fields, moved. -/
lemma planFields_moved {order : ByteOrder} {given : ℕ} {fields : List FieldLayout}
    (h0 : ∀ e ∈ fields, 0 ≤ e.offset) {values : List Value} {plan : Plan}
    (h : planFields order given fields values = .ok plan) (given' distance count : ℕ) :
    planFields order given' (fields.map (FieldLayout.moved distance count)) values =
      .ok ⟨plan.writes.map (Write.moved distance), plan.rest⟩ := by
  induction fields generalizing values plan with
  | nil => cases h; rfl
  | cons e fields ih =>
    obtain ⟨v, rest, raw, others, rfl, hraw, ho, rfl⟩ := planFields_cons_eq_ok.mp h
    have hoffset : (e.moved distance count).offset.toNat = e.offset.toNat + distance := by
      have := h0 e List.mem_cons_self
      simp only [FieldLayout.moved]
      omega
    refine planFields_cons_eq_ok.mpr ⟨v, rest, raw, _, rfl, hraw,
      ih (fun e' he' => h0 e' (List.mem_cons_of_mem _ he')) ho, ?_⟩
    rw [hoffset]
    rfl

/-- Values are planned into fields, and the ones behind them into fields that are moved. -/
lemma planFields_append_moved {order : ByteOrder} {given given' : ℕ}
    {fields others : List FieldLayout} {values more : List Value} {plan plan' : Plan}
    (hlength : values.length = fields.length) (h0 : ∀ e ∈ others, 0 ≤ e.offset)
    (h : planFields order given fields values = .ok plan)
    (h' : planFields order given' others more = .ok plan') (total distance count : ℕ) :
    planFields order total (fields ++ others.map (FieldLayout.moved distance count))
        (values ++ more) =
      .ok ⟨plan.writes ++ plan'.writes.map (Write.moved distance), plan'.rest⟩ := by
  have hrest : plan.rest = [] := by
    rw [(planFields_lengths h).2, ← hlength, List.drop_length]
  have hfirst := planFields_append_values h total more
  have hsecond := planFields_moved h0 h' total distance count
  rw [hrest, List.nil_append] at hfirst
  simp only [planFields_append, hfirst, hsecond, bind, Except.bind, pure, Except.pure]

namespace Bytes

lemma spliceAll_append (data : Bytes) (writes others : List Write) :
    data.spliceAll (writes ++ others) = (data.spliceAll writes).spliceAll others :=
  List.foldl_append

lemma splice_append_left {data : Bytes} {w : Write} (h : w.Inside data.length) (more : Bytes) :
    splice (data ++ more) w.offset w.raw = data.splice w.offset w.raw ++ more := by
  unfold Write.Inside at h
  unfold splice
  rw [List.take_append_of_le_length (by omega), List.drop_append_of_le_length h]
  simp only [List.append_assoc]

lemma splice_append_right (before data : Bytes) (w : Write) :
    splice (before ++ data) (w.moved before.length).offset w.raw =
      before ++ data.splice w.offset w.raw := by
  have hoffset : (w.moved before.length).offset = before.length + w.offset := Nat.add_comm _ _
  unfold splice
  rw [hoffset, List.take_length_add_append, Nat.add_assoc, List.drop_length_add_append]
  simp only [List.append_assoc]

lemma spliceAll_append_left {data : Bytes} {writes : List Write}
    (h : ∀ w ∈ writes, w.Inside data.length) (more : Bytes) :
    spliceAll (data ++ more) writes = data.spliceAll writes ++ more := by
  induction writes generalizing data with
  | nil => rfl
  | cons w rest ih =>
    have hw := h w List.mem_cons_self
    rw [spliceAll_cons, spliceAll_cons, splice_append_left hw, ih]
    intro v hv
    rw [length_splice_inside hw]
    exact h v (List.mem_cons_of_mem _ hv)

/-- Writes that are moved behind the first part of some data are made in the second part. -/
lemma spliceAll_append_right (before data : Bytes) (writes : List Write) :
    spliceAll (before ++ data) (writes.map (Write.moved before.length)) =
      before ++ data.spliceAll writes := by
  induction writes generalizing data with
  | nil => rfl
  | cons w rest ih =>
    have hraw : (w.moved before.length).raw = w.raw := rfl
    rw [List.map_cons, spliceAll_cons, hraw, splice_append_right, ih, spliceAll_cons]

/-- Writes over zeros, and behind them moved ones, are the two made on their own. -/
lemma spliceAll_zeros_append {m : ℕ} (n : ℕ) {writes : List Write} (h : ∀ w ∈ writes, w.Inside m)
    (others : List Write) :
    spliceAll (zeros (m + n)) (writes ++ others.map (Write.moved m)) =
      spliceAll (zeros m) writes ++ spliceAll (zeros n) others := by
  have hzeros : zeros (m + n) = zeros m ++ zeros n := (List.replicate_append_replicate ..).symm
  rw [← length_zeros m] at h
  have hright := spliceAll_append_right (spliceAll (zeros m) writes) (zeros n) others
  rw [length_spliceAll h, length_zeros] at hright
  rw [hzeros, spliceAll_append, spliceAll_append_left h, hright]

lemma sliceFrom_eq_slice (data : Bytes) (start : ℤ) :
    data.sliceFrom start = data.slice start data.length := by
  rw [slice, sliceFrom, place_natCast (le_refl _), List.take_length]

end Bytes

/-! ## Records -/

lemma forall₂_append_iff {α β : Type} {r : α → β → Prop} {xs ys : List α} {zs : List β} :
    List.Forall₂ r (xs ++ ys) zs ↔
      ∃ us vs, List.Forall₂ r xs us ∧ List.Forall₂ r ys vs ∧ zs = us ++ vs := by
  constructor
  · intro h
    have htake := List.forall₂_take xs.length h
    have hdrop := List.forall₂_drop xs.length h
    rw [List.take_left] at htake
    rw [List.drop_left] at hdrop
    exact ⟨_, _, htake, hdrop, (List.take_append_drop xs.length zs).symm⟩
  · rintro ⟨us, vs, hus, hvs, rfl⟩
    exact List.rel_append hus hvs

namespace Format

variable {f g : Format} {stop stop' : ℤ} {ps qs : List Placement}

/-- The walk over two formats is the walk over the first and, moved, that over the second. -/
lemma walk_append (hf : f.walk 0 = ps.map .ok) (hc : Chain 0 ps stop)
    (hg : g.walk 0 = qs.map .ok) (horder : g.order = f.order)
    (hm : Movable f.order stop g.tokens) :
    (f.append g).walk 0 = (ps ++ qs.map (Placement.moved stop)).map .ok := by
  rw [walk, horder] at hg
  have hmoved := place_add hm hg
  rw [zero_add] at hmoved
  rw [walk, append, place_append hf hc, hmoved, List.map_append]

lemma fieldsOf_append_moved (ps qs : List Placement) (stop : ℤ) :
    fieldsOf 0 (ps ++ qs.map (Placement.moved stop)) =
      fieldsOf 0 ps ++ (fieldsOf 0 qs).map (FieldLayout.moved stop (fieldsOf 0 ps).length) := by
  rw [fieldsOf_append, fieldsOf_moved]

lemma chain_append (hc : Chain 0 ps stop) (hc' : Chain 0 qs stop') :
    Chain 0 (ps ++ qs.map (Placement.moved stop)) (stop + stop') :=
  hc.append (hc'.movedTo stop)

/-- Where two records are packed, one behind the other they are packed as one, unless that is too
large to be kept. -/
lemma pack_append [Host] (hf : f.walk 0 = ps.map .ok) (hc : Chain 0 ps stop)
    (hg : g.walk 0 = qs.map .ok) (hc' : Chain 0 qs stop') (horder : g.order = f.order)
    (hm : Movable f.order stop g.tokens) {values others : List Value} {r s : PackedRecord}
    (hlength : values.length = (fieldsOf 0 ps).length) (hr : f.pack values = .ok r)
    (hs : g.pack others = .ok s) :
    (stop + stop' ≤ Host.storage → (f.append g).pack (values ++ others) =
      .ok ⟨r.data ++ s.data, s.surplus, r.fields + s.fields⟩) ∧
    (Host.storage < stop + stop' →
      ∃ fault, (f.append g).pack (values ++ others) = .error fault ∧ NoRoom fault) := by
  have hw := walk_append hf hc hg horder hm
  have hall := chain_append hc hc'
  have hends := packEnds hf hc values
  have hends' := packEnds hg hc' others
  rw [hr] at hends
  rw [hs] at hends'
  obtain ⟨size, rfl⟩ := Int.eq_ofNat_of_zero_le hc.start_le_stop
  obtain ⟨size', rfl⟩ := Int.eq_ofNat_of_zero_le hc'.start_le_stop
  cases hends with
  | @packed plan _ hplan =>
    cases hends' with
    | @packed plan' _ hplan' =>
      have hfields := ((plan_eq_ok_iff hf).mp hplan).2
      have hfields' := ((plan_eq_ok_iff hg).mp hplan').2
      rw [horder] at hfields'
      have hin : ∀ p ∈ ps ++ qs.map (Placement.moved size), p.Inside (size + size') :=
        hall.inside (le_refl 0) (by push_cast; exact le_refl _)
      have hboth : (f.append g).plan (size + size') 0 (values ++ others) =
          .ok ⟨plan.writes ++ plan'.writes.map (Write.moved size), plan'.rest⟩ := by
        refine (plan_eq_ok_iff hw).mpr ⟨hin, ?_⟩
        rw [fieldsOf_append_moved]
        exact planFields_append_moved hlength (fun e he => (hc'.field_bounds he).2.1) hfields
          hfields' _ size _
      obtain ⟨-, hsome, hnone⟩ := pack_of_plan hw hall hboth
      refine ⟨fun hle => (hsome hle).trans ?_, hnone⟩
      have hinside : ∀ w ∈ plan.writes, w.Inside size := inside_of_plan hf hc hplan
      have hsize : ((size : ℤ) + size').toNat = size + size' := rfl
      rw [hsize, Bytes.spliceAll_zeros_append size' hinside, List.length_append, List.length_map]
      rfl

/-- Two records in a row are unpacked one by one. -/
lemma unpack_append (hf : f.walk 0 = ps.map .ok) (hc : Chain 0 ps stop)
    (hg : g.walk 0 = qs.map .ok) (hc' : Chain 0 qs stop') (horder : g.order = f.order)
    (hm : Movable f.order stop g.tokens) {data : Bytes} {values : List Value} :
    (f.append g).unpack data = .ok values ↔ ∃ firsts others, f.unpack data = .ok firsts ∧
      g.unpack (data.sliceFrom stop) = .ok others ∧ values = firsts ++ others := by
  have hw := walk_append hf hc hg horder hm
  have h0 := hc.start_le_stop
  have happend : (f.append g).order = f.order := rfl
  rw [unpack, unpackFrom_eq_ok_iff hw, fieldsOf_append_moved, forall₂_append_iff, happend,
    List.forall_mem_append]
  by_cases hin : ∀ p ∈ ps, p.Inside data.length
  swap
  · refine iff_of_false (fun h => hin h.1.1) ?_
    rintro ⟨firsts, others, hfirsts, -, -⟩
    exact hin ((unpackFrom_eq_ok_iff hf).mp hfirsts).1
  have hstop : stop ≤ data.length := hc.stop_le (Int.natCast_nonneg _) hin
  have hlength : ((data.sliceFrom stop).length : ℤ) = data.length - stop := by
    rw [Bytes.sliceFrom_eq_slice, Bytes.length_slice h0 hstop (le_refl _)]
    omega
  have hinside : (∀ q ∈ qs.map (Placement.moved stop), q.Inside data.length) ↔
      ∀ q ∈ qs, q.Inside (data.sliceFrom stop).length := by
    rw [List.forall_mem_map]
    refine forall₂_congr fun q hq => ?_
    have hlow := (hc'.bounds hq).1
    unfold Placement.Inside
    rw [Placement.stop_moved]
    simp only [Placement.moved]
    omega
  have hdecode : (∀ q ∈ qs, q.Inside (data.sliceFrom stop).length) → ∀ others,
      List.Forall₂ (fun e v => FieldLayout.decode f.order data e = .ok v)
          ((fieldsOf 0 qs).map (FieldLayout.moved stop (fieldsOf 0 ps).length)) others ↔
        List.Forall₂ (fun e v => FieldLayout.decode g.order (data.sliceFrom stop) e = .ok v)
          (fieldsOf 0 qs) others := by
    intro hqs others
    rw [horder, Bytes.sliceFrom_eq_slice]
    refine forall₂_decode_moved h0 (le_refl _) (fun e he => ?_) _
    have hbounds := hc'.field_bounds he
    have hend := (hc'.field_inside hqs he).2
    exact ⟨hbounds.2.1, hbounds.1.positive, by omega⟩
  constructor
  · rintro ⟨⟨-, hqs⟩, firsts, others, hfirsts, hothers, rfl⟩
    have hqs := hinside.mp hqs
    exact ⟨firsts, others, (unpackFrom_eq_ok_iff hf).mpr ⟨hin, hfirsts⟩,
      (unpackFrom_eq_ok_iff hg).mpr ⟨hqs, (hdecode hqs others).mp hothers⟩, rfl⟩
  · rintro ⟨firsts, others, hfirsts, hothers, rfl⟩
    obtain ⟨hqs, hothers⟩ := (unpackFrom_eq_ok_iff hg).mp hothers
    exact ⟨⟨hin, hinside.mpr hqs⟩, firsts, others, ((unpackFrom_eq_ok_iff hf).mp hfirsts).2,
      (hdecode hqs others).mpr hothers, rfl⟩

/-- What a format has in common with two formats that it is made of: sizes add up, layouts follow
each other, and records are packed and unpacked one by one. -/
structure Joins [Host] (f g h : Format) (fields others : List FieldLayout) (size size' : ℤ) :
    Prop where
  sizes : f.size = .ok size ∧ g.size = .ok size' ∧ h.size = .ok (size + size')
  layouts : f.layout = .ok fields ∧ g.layout = .ok others ∧
    h.layout = .ok (fields ++ others.map (FieldLayout.moved size fields.length))
  packed : ∀ values more r s, values.length = fields.length → f.pack values = .ok r →
    g.pack more = .ok s →
      (size + size' ≤ Host.storage → h.pack (values ++ more) =
        .ok ⟨r.data ++ s.data, s.surplus, r.fields + s.fields⟩) ∧
      (Host.storage < size + size' →
        ∃ fault, h.pack (values ++ more) = .error fault ∧ NoRoom fault)
  unpacked : ∀ data values, h.unpack data = .ok values ↔ ∃ firsts seconds,
    f.unpack data = .ok firsts ∧ g.unpack (data.sliceFrom size) = .ok seconds ∧
      values = firsts ++ seconds

/-- Two formats are joined where the size of the first is a multiple of the alignments of the
second. -/
theorem WellFormed.joins_append [Host] (hf : f.WellFormed) (hg : g.WellFormed)
    (horder : g.order = f.order) (hm : ∀ size, f.size = .ok size → Movable f.order size g.tokens) :
    ∃ fields others size size', Joins f g (f.append g) fields others size size' := by
  obtain ⟨ps, stop, hw, hc⟩ := hf.exists_chain 0
  obtain ⟨qs, stop', hw', hc'⟩ := hg.exists_chain 0
  have hsize := size_of_walk hw hc
  have hmoved := hm stop hsize
  have hboth := walk_append hw hc hw' horder hmoved
  have hlayout := fieldsFrom_of_walk hboth
  rw [fieldsOf_append_moved] at hlayout
  exact ⟨fieldsOf 0 ps, fieldsOf 0 qs, stop, stop', ⟨hsize, size_of_walk hw' hc',
      size_of_walk hboth (chain_append hc hc')⟩,
    ⟨fieldsFrom_of_walk hw, fieldsFrom_of_walk hw', hlayout⟩,
    fun values more r s => pack_append hw hc hw' hc' horder hmoved,
    fun data values => unpack_append hw hc hw' hc' horder hmoved⟩

end Format

/-! ## Descriptors -/

namespace Descriptor

lemma trimStart_append_of_ne_nil {t : Text} (h : t.trimStart ≠ []) (u : Text) :
    Text.trimStart (t ++ u) = t.trimStart ++ u := by
  have hne : (t.dropWhile CodePoint.isBlank).isEmpty = false := by
    simpa [Text.trimStart] using h
  rw [Text.trimStart, List.dropWhile_append, hne]
  rfl

lemma trimEnd_append_of_ne_nil (t : Text) {u : Text} (h : u.trimEnd ≠ []) :
    Text.trimEnd (t ++ u) = t ++ u.trimEnd := by
  have hne : Text.trimStart u.reverse ≠ [] := fun hnil => h (by
    change (Text.trimStart u.reverse).reverse = []
    rw [hnil]
    rfl)
  change (Text.trimStart (t ++ u).reverse).reverse = t ++ (Text.trimStart u.reverse).reverse
  rw [List.reverse_append, trimStart_append_of_ne_nil hne, List.reverse_append,
    List.reverse_reverse]

lemma trimEnd_append (t : Text) {after : Text} (h : Blanks after) :
    Text.trimEnd (t ++ after) = t.trimEnd := by
  have hreverse : Blanks after.reverse := fun c hc => h c (List.mem_reverse.mp hc)
  change (Text.trimStart (t ++ after).reverse).reverse = (Text.trimStart t.reverse).reverse
  rw [List.reverse_append, trimStart_append hreverse]

lemma exists_trimEnd_append (t : Text) : ∃ after, Blanks after ∧ t.trimEnd ++ after = t := by
  refine ⟨(t.reverse.takeWhile CodePoint.isBlank).reverse, fun c hc => ?_, ?_⟩
  · exact blanks_takeWhile _ c (List.mem_reverse.mp hc)
  · rw [Text.trimEnd, ← List.reverse_append, List.takeWhile_append_dropWhile, List.reverse_reverse]

lemma blanks_of_trimStart {t : Text} (h : t.trimStart = []) : Blanks t := by
  have ht := takeWhile_append_trimStart t
  rw [h, List.append_nil] at ht
  exact ht ▸ blanks_takeWhile t

lemma Opens.append {e : Entry} {t u : Text} (h : Opens e t u) (more : Text) :
    Opens e (t ++ more) (u ++ more) := by
  cases h with
  | intro s rest hbefore hdigits hafter =>
    simpa only [List.append_assoc, List.cons_append] using
      Opens.intro s (u ++ more) hbefore hdigits hafter

lemma Spells.append {es : List Entry} {t u : Text} (h : Spells es t u) (more : Text) :
    Spells es (t ++ more) (u ++ more) := by
  induction h with
  | nil t => exact .nil _
  | cons h _ ih => exact .cons (h.append more) ih

lemma Spells.trans {es es' : List Entry} {t u rest : Text} (h : Spells es t u)
    (h' : Spells es' u rest) : Spells (es ++ es') t rest := by
  induction h with
  | nil => exact h'
  | cons h _ ih => exact .cons h (ih h')

/-- Blanks belong to the entry that follows them. -/
lemma Spells.blanks_append {es : List Entry} {t : Text} (h : Spells es t []) (hne : t ≠ [])
    {before : Text} (hb : Blanks before) : Spells es (before ++ t) [] := by
  cases h with
  | nil => exact absurd rfl hne
  | cons h hs =>
    cases h with
    | @intro blanks digits after s rest hbefore hdigits hafter =>
      have hblanks : Blanks (before ++ blanks) := List.forall_mem_append.mpr ⟨hb, hbefore⟩
      rw [← List.append_assoc]
      exact .cons (.intro s _ hblanks hdigits hafter) hs

lemma eq_nil_of_spells_nil {es : List Entry} (h : Spells es [] []) : es = [] := by
  cases h with
  | nil => rfl
  | cons h _ => exact absurd h (not_opens_nil _ _)

lemma Grammatical.mark_eq_none {mark? : Option ByteOrder} {es : List Entry} {t : Text}
    (h : Grammatical mark? es t.trim)
    (hnone : ∀ (order : ByteOrder) rest, t.trimStart ≠ CodePoint.ofChar order.mark :: rest) :
    mark? = none := by
  cases mark? with
  | none => rfl
  | some order =>
    obtain ⟨fields, ht, -⟩ := h
    obtain ⟨after, -, hafter⟩ := exists_trimEnd_append t.trimStart
    change t.trim ++ after = t.trimStart at hafter
    rw [ht] at hafter
    exact absurd hafter.symm (hnone order _)

/-- The readings of two texts, the second without a mark, are one reading of both texts in a
row. -/
theorem Grammatical.append {mark? : Option ByteOrder} {es es' : List Entry} {t t' : Text}
    (h : Grammatical mark? es t.trim) (h' : Grammatical none es' t'.trim) :
    Grammatical mark? (es ++ es') (Text.trim (t ++ t')) := by
  obtain ⟨fields, hm, hs⟩ := h
  obtain ⟨fields', hm', hs'⟩ := h'
  obtain rfl : t'.trim = fields' := hm'
  by_cases hstart : t.trimStart = []
  · -- There is nothing in the first text.
    have ht : t.trim = [] := by rw [Text.trim, hstart]; rfl
    rw [ht] at hm
    obtain ⟨hmark, rfl⟩ := List.append_eq_nil_iff.mp hm.symm
    obtain rfl := eq_nil_of_spells_nil hs
    refine ⟨t'.trim, ?_, hs'⟩
    rw [hmark, Text.trim, trimStart_append (blanks_of_trimStart hstart)]
    rfl
  have hwhole : Text.trim (t ++ t') = Text.trimEnd (t.trimStart ++ t') := by
    rw [Text.trim, trimStart_append_of_ne_nil hstart]
  obtain ⟨after', hafter', hend'⟩ := exists_trimEnd_append t'.trimStart
  change t'.trim ++ after' = t'.trimStart at hend'
  by_cases hnil : t'.trim = []
  · -- There is nothing in the second text.
    have hblanks : Blanks t' := by
      rw [← takeWhile_append_trimStart t', ← hend', hnil]
      exact List.forall_mem_append.mpr ⟨blanks_takeWhile t', hafter'⟩
    rw [hnil] at hs'
    obtain rfl := eq_nil_of_spells_nil hs'
    rw [hwhole, trimEnd_append _ hblanks, List.append_nil]
    exact ⟨fields, hm, hs⟩
  · obtain ⟨after, hafter, hend⟩ := exists_trimEnd_append t.trimStart
    change t.trim ++ after = t.trimStart at hend
    have hgap : Blanks (after ++ t'.takeWhile CodePoint.isBlank) :=
      List.forall_mem_append.mpr ⟨hafter, blanks_takeWhile t'⟩
    refine ⟨fields ++ (after ++ t'.takeWhile CodePoint.isBlank ++ t'.trim), ?_,
      (hs.append _).trans (hs'.blanks_append hnil hgap)⟩
    calc Text.trim (t ++ t')
        = Text.trimEnd (t.trimStart ++ t'.takeWhile CodePoint.isBlank ++ t'.trimStart) := by
          rw [hwhole, List.append_assoc, takeWhile_append_trimStart]
      _ = t.trimStart ++ t'.takeWhile CodePoint.isBlank ++ t'.trim :=
          trimEnd_append_of_ne_nil _ hnil
      _ = markText mark? ++ (fields ++ (after ++ t'.takeWhile CodePoint.isBlank ++ t'.trim)) := by
          rw [← hend, hm]
          simp only [List.append_assoc]

/-- A descriptor behind another one, without a mark of its own, stands for its tokens behind those
of the other. -/
theorem compile_append {d d' : Text} {f g : Format} (hd : compile d = .ok f)
    (hd' : compile d' = .ok g)
    (hnone : ∀ (order : ByteOrder) rest, d'.trimStart ≠ CodePoint.ofChar order.mark :: rest) :
    compile (d ++ d') = .ok (f.append g) := by
  obtain ⟨mark?, es, hg, hes, rfl⟩ := compile_eq_ok_iff.mp hd
  obtain ⟨mark?', es', hg', hes', rfl⟩ := compile_eq_ok_iff.mp hd'
  obtain rfl := hg'.mark_eq_none hnone
  refine compile_eq_ok_iff.mpr ⟨mark?, es ++ es', hg.append hg',
    List.forall_mem_append.mpr ⟨hes, hes'⟩, ?_⟩
  rw [Format.append, List.map_append]

end Descriptor

namespace Format

/-- Formats of one byte order are joined by putting their tokens one behind the other, where the
size of the first is a multiple of the alignments of the second or the byte order does not align;
and descriptors by writing one behind the other, where the second has no mark. -/
theorem append_laws [Host] :
    (∀ f g : Format, f.WellFormed → g.WellFormed → g.order = f.order →
      (∀ size, f.size = .ok size → Movable f.order size g.tokens) →
      ∃ fields others size size', Joins f g (f.append g) fields others size size') ∧
    ∀ (d d' : Text) (f g : Format), Descriptor.compile d = .ok f → Descriptor.compile d' = .ok g →
      (∀ (order : ByteOrder) rest, d'.trimStart ≠ CodePoint.ofChar order.mark :: rest) →
      Descriptor.compile (d ++ d') = .ok (f.append g) :=
  ⟨fun _ _ hf hg horder hm => hf.joins_append hg horder hm,
    fun _ _ _ _ hd hd' hnone => Descriptor.compile_append hd hd' hnone⟩

/-- A record of two numbers and one that goes on with a number and a text, at the six bytes that
the first one takes. -/
theorem append_laws_blank :
    ∃ f g : Format, Descriptor.compile "@ih " = .ok f ∧ Descriptor.compile " h2s" = .ok g ∧
      Descriptor.compile "@ih  h2s" = .ok (f.append g) ∧
      (f.append g).pack [.int 1, .int 2, .int 3, .text [0x61]] =
        .ok ⟨[1, 0, 0, 0, 2, 0, 3, 0, 0x61, 0], 0, 4⟩ ∧
      (f.append g).unpack [1, 0, 0, 0, 2, 0, 3, 0, 0x61, 0] =
        .ok [.int 1, .int 2, .int 3, .text [0x61, 0]] := by
  have hd : Descriptor.compile "@ih " =
      .ok ⟨.nativeAligned, [⟨1, .known .int32⟩, ⟨1, .known .int16⟩], "@ih "⟩ := by cbv
  have hd' : Descriptor.compile " h2s" =
      .ok ⟨.nativeAligned, [⟨1, .known .int16⟩, ⟨2, .known .string⟩], " h2s"⟩ := by cbv
  have hr : Format.pack ⟨.nativeAligned, [⟨1, .known .int32⟩, ⟨1, .known .int16⟩], "@ih "⟩
      [.int 1, .int 2] = .ok ⟨[1, 0, 0, 0, 2, 0], 0, 2⟩ := by cbv
  have hs : Format.pack ⟨.nativeAligned, [⟨1, .known .int16⟩, ⟨2, .known .string⟩], " h2s"⟩
      [.int 3, .text [0x61]] = .ok ⟨[3, 0, 0x61, 0], 0, 2⟩ := by cbv
  have hu : Format.unpack ⟨.nativeAligned, [⟨1, .known .int32⟩, ⟨1, .known .int16⟩], "@ih "⟩
      [1, 0, 0, 0, 2, 0, 3, 0, 0x61, 0] = .ok [.int 1, .int 2] := by cbv
  have hu' : Format.unpack ⟨.nativeAligned, [⟨1, .known .int16⟩, ⟨2, .known .string⟩], " h2s"⟩
      (Bytes.sliceFrom [1, 0, 0, 0, 2, 0, 3, 0, 0x61, 0] 6) =
        .ok [.int 3, .text [0x61, 0]] := by cbv
  obtain ⟨hjoin, hcompile⟩ := append_laws
  obtain ⟨fields, others, size, size', hsizes, hlayouts, hpack, hunpack⟩ :=
    hjoin _ _ (Descriptor.wellFormed_of_compile hd) (Descriptor.wellFormed_of_compile hd') rfl
      fun size hsize => by
        obtain rfl : size = 6 := Except.ok.inj (hsize.symm.trans (by rfl))
        exact fun _ => by decide
  obtain rfl : size = 6 := Except.ok.inj (hsizes.1.symm.trans (by rfl))
  obtain rfl : size' = 4 := Except.ok.inj (hsizes.2.1.symm.trans (by rfl))
  obtain rfl : fields = [⟨0, 4, .int32, 0⟩, ⟨4, 2, .int16, 1⟩] :=
    Except.ok.inj (hlayouts.1.symm.trans (by rfl))
  refine ⟨_, _, hd, hd', hcompile _ _ _ _ hd hd' fun order rest h => ?_,
    (hpack _ _ _ _ rfl hr hs).1 (by decide), (hunpack _ _).mpr ⟨_, _, hu, hu', rfl⟩⟩
  have hhead := List.head_eq_of_cons_eq h
  cases order <;> exact absurd hhead (by decide)

end Format

end BinaryLayout
