import BinaryLayout.Proofs.LeastPlacements

/-!
# Repeat counts

A repeat count means repetition: a token stands for as many tokens of a single element. A walk
aligns a token once and checks it once against the buffer, and would do both for each of the single
elements. Nothing comes of that, because every size is a multiple of its alignment, so that elements
behind an aligned one are aligned, and because elements are inside a buffer one by one just when
they are inside it together. Only the count of a string is something else, the width of its field.

A token is cut in two first, and then one element after the other is cut off.
-/
namespace BinaryLayout

/-! ## A token in two parts -/

/-- Behind an aligned type there is no padding in front of more elements of that type. -/
lemma ByteOrder.align_elements (order : ByteOrder) (s : Specifier) (offset : ℤ) (m : ℕ) :
    order.align s (order.align s offset + m * s.size) = order.align s offset + m * s.size := by
  have hsize : (s.alignment : ℤ) ∣ m * s.size := by
    exact_mod_cast s.alignment_dvd_size.mul_left m
  have hsettled : order.align s (order.align s offset) = order.align s offset :=
    le_antisymm (align_le (order.allows_align s offset) (le_refl _)) (order.le_align s _)
  rw [align_add fun _ => hsize, hsettled]

namespace Placement

variable {s : Specifier} (offset : ℤ) (m n : ℕ)

lemma stop_cut (s : Specifier) :
    (Placement.mk (offset + m * s.size) n s).stop = (Placement.mk offset (m + n) s).stop := by
  simp only [stop, size]
  ring

lemma inside_cut (s : Specifier) (length : ℕ) :
    (Placement.mk offset m s).Inside length ∧
        (Placement.mk (offset + m * s.size) n s).Inside length ↔
      (Placement.mk offset (m + n) s).Inside length := by
  have hstop := stop_cut offset m n s
  have hfirst : 0 ≤ (m : ℤ) * s.size := by positivity
  have hothers : 0 ≤ (n : ℤ) * s.size := by positivity
  unfold Inside
  rw [hstop]
  simp only [stop, size, Int.add_mul]
  omega

lemma fields_cut (hs : s.kind ≠ .string) :
    (Placement.mk offset (m + n) s).fields =
      (Placement.mk offset m s).fields ++ (Placement.mk (offset + m * s.size) n s).fields := by
  unfold fields
  rw [← List.map_append]
  congr 1
  unfold extents
  cases hk : s.kind with
  | pad => rfl
  | string => exact absurd hk hs
  | char | int | real =>
    have hcount : ((m : ℤ) + n).toNat = m + n := by omega
    simp only [hcount, Int.toNat_natCast, List.range_add, List.map_append, List.map_map]
    congr 1
    refine List.map_congr_left fun i _ => ?_
    simp only [Function.comp_apply, elementOffset, Prod.mk.injEq, and_true]
    push_cast
    ring

end Placement

/-- A walk, and the same walk with one of its tokens cut in two, if it gets that far. -/
inductive CutWalk : List (Except Fault Placement) → List (Except Fault Placement) → Prop where
  | same (steps : List (Except Fault Placement)) : CutWalk steps steps
  | here {s : Specifier} (hs : s.kind ≠ .string) (offset : ℤ) (m n : ℕ)
      (steps : List (Except Fault Placement)) :
      CutWalk (.ok ⟨offset, m + n, s⟩ :: steps)
        (.ok ⟨offset, m, s⟩ :: .ok ⟨offset + m * s.size, n, s⟩ :: steps)
  | later (step : Except Fault Placement) {steps steps' : List (Except Fault Placement)} :
      CutWalk steps steps' → CutWalk (step :: steps) (step :: steps')

/-- To cut a token is to cut the walk. -/
theorem cutWalk_place (order : ByteOrder) {code : Code} (hc : code ≠ .known .string) (m n : ℕ)
    (before rest : List Token) (offset : ℤ) :
    CutWalk (place order offset (before ++ ⟨m + n, code⟩ :: rest))
      (place order offset (before ++ ⟨m, code⟩ :: ⟨n, code⟩ :: rest)) := by
  induction before generalizing offset with
  | nil =>
    cases code with
    | unknown name =>
      simp only [List.nil_append, place, Code.specifier]
      exact .same _
    | known s =>
      have hs : s.kind ≠ .string := fun h => hc (congrArg Code.known (Specifier.eq_string h))
      have hstop : (Placement.mk (order.align s offset) m s).stop =
          order.align s offset + m * s.size := rfl
      simp only [List.nil_append, place, Code.specifier, hstop, order.align_elements,
        Placement.stop_cut]
      exact .here hs _ m n _
  | cons t before ih =>
    rw [List.cons_append, List.cons_append, place, place]
    cases t.code.specifier with
    | error fault => exact .same _
    | ok s => exact .later _ (ih _)

/-! ## Walks that cannot be told apart -/

/-- Tokens at places that take the same bytes and have the same fields. -/
structure SameFields (ps qs : List Placement) : Prop where
  fields : qs.flatMap Placement.fields = ps.flatMap Placement.fields
  stop : qs.getLast?.map Placement.stop = ps.getLast?.map Placement.stop
  inside : ∀ length, (∀ q ∈ qs, q.Inside length) ↔ ∀ p ∈ ps, p.Inside length

/-- Two walks that stop with the same fault, or have places for all their tokens, with the same
fields. -/
inductive Matching (steps steps' : List (Except Fault Placement)) : Prop where
  | stopped (fault : Fault) :
      steps.mapM id = .error fault → steps'.mapM id = .error fault → Matching steps steps'
  | through (ps qs : List Placement) : steps = ps.map .ok → steps' = qs.map .ok →
      SameFields ps qs → Matching steps steps'

namespace SameFields

variable {ps qs : List Placement}

lemma refl (ps : List Placement) : SameFields ps ps := ⟨rfl, rfl, fun _ => Iff.rfl⟩

lemma fieldsOf_eq (h : SameFields ps qs) (k : ℕ) : fieldsOf k qs = fieldsOf k ps :=
  congrArg (numbered k) h.fields

lemma getLast?_stop (p : Placement) (ps : List Placement) :
    (p :: ps).getLast?.map Placement.stop =
      some ((ps.getLast?.map Placement.stop).getD p.stop) := by
  rw [List.getLast?_cons]
  cases ps.getLast? <;> rfl

lemma cons (h : SameFields ps qs) (p : Placement) : SameFields (p :: ps) (p :: qs) where
  fields := by rw [List.flatMap_cons, h.fields, ← List.flatMap_cons]
  stop := by rw [getLast?_stop, h.stop, ← getLast?_stop]
  inside length := by simp only [List.forall_mem_cons, h.inside length]

lemma cut {s : Specifier} (hs : s.kind ≠ .string) (offset : ℤ) (m n : ℕ) (ps : List Placement) :
    SameFields (⟨offset, m + n, s⟩ :: ps)
      (⟨offset, m, s⟩ :: ⟨offset + m * s.size, n, s⟩ :: ps) where
  fields := by
    simp only [List.flatMap_cons, Placement.fields_cut offset m n hs, List.append_assoc]
  stop := by
    rw [getLast?_stop, getLast?_stop, getLast?_stop, Placement.stop_cut]
    rfl
  inside length := by
    simp only [List.forall_mem_cons, ← Placement.inside_cut offset m n s, and_assoc]

end SameFields

lemma mapM_id_eq_ok_iff {steps : List (Except Fault Placement)} {ps : List Placement} :
    steps.mapM id = .ok ps ↔ steps = ps.map .ok := by
  rw [mapM_eq_ok_iff, ← List.forall₂_eq_eq_eq, List.forall₂_map_right_iff]
  rfl

lemma walk_cases (steps : List (Except Fault Placement)) :
    (∃ ps : List Placement, steps = ps.map .ok) ∨ ∃ fault, steps.mapM id = .error fault := by
  cases h : steps.mapM id with
  | error fault => exact .inr ⟨fault, rfl⟩
  | ok ps => exact .inl ⟨ps, mapM_id_eq_ok_iff.mp h⟩

namespace Matching

lemma same (steps : List (Except Fault Placement)) : Matching steps steps := by
  obtain ⟨ps, hps⟩ | ⟨fault, hfault⟩ := walk_cases steps
  · exact .through ps ps hps hps (.refl ps)
  · exact .stopped fault hfault hfault

lemma cons {steps steps' : List (Except Fault Placement)} (h : Matching steps steps')
    (step : Except Fault Placement) : Matching (step :: steps) (step :: steps') := by
  cases step with
  | error fault => exact .stopped fault rfl rfl
  | ok p =>
    cases h with
    | stopped fault h h' =>
      refine .stopped fault ?_ ?_ <;> rw [List.mapM_cons]
      · rw [h]; rfl
      · rw [h']; rfl
    | through ps qs h h' hsame =>
      exact .through (p :: ps) (p :: qs) (congrArg (_ :: ·) h) (congrArg (_ :: ·) h')
        (hsame.cons p)

end Matching

/-- A walk is matched by the walk with a token cut in two. -/
theorem CutWalk.matching {steps steps' : List (Except Fault Placement)}
    (h : CutWalk steps steps') : Matching steps steps' := by
  induction h with
  | same steps => exact .same steps
  | here hs offset m n steps =>
    obtain ⟨ps, rfl⟩ | ⟨fault, hfault⟩ := walk_cases steps
    · exact .through _ _ rfl rfl (.cut hs offset m n ps)
    · refine .stopped fault ?_ ?_
      · rw [List.mapM_cons, hfault]; rfl
      · rw [List.mapM_cons, List.mapM_cons, hfault]; rfl
  | later step _ ih => exact ih.cons step

/-! ## Formats that cannot be told apart -/

namespace Format

/-- Two formats with the same records: their fields are the same, and packing and unpacking succeed
for the same values and the same data, with the same result. -/
structure Equivalent [Host] (f g : Format) : Prop where
  size : g.size = f.size
  layout : g.layout = f.layout
  arity : g.arity = f.arity
  pack : ∀ values record, g.pack values = .ok record ↔ f.pack values = .ok record
  packInto : ∀ b offset values,
    (g.packInto b offset values).buffer = (f.packInto b offset values).buffer ∧
      (g.packInto b offset values).surplus = (f.packInto b offset values).surplus ∧
      ∀ n, (g.packInto b offset values).outcome = .ok n ↔
        (f.packInto b offset values).outcome = .ok n
  unpack : ∀ data values, g.unpack data = .ok values ↔ f.unpack data = .ok values
  unpackFrom : ∀ data offset values,
    g.unpackFrom data offset = .ok values ↔ f.unpackFrom data offset = .ok values

lemma Equivalent.trans [Host] {f g h : Format} (hfg : f.Equivalent g) (hgh : g.Equivalent h) :
    f.Equivalent h where
  size := hgh.size.trans hfg.size
  layout := hgh.layout.trans hfg.layout
  arity := hgh.arity.trans hfg.arity
  pack values record := (hgh.pack values record).trans (hfg.pack values record)
  packInto b offset values := by
    obtain ⟨hbuffer, hsurplus, houtcome⟩ := hfg.packInto b offset values
    obtain ⟨hbuffer', hsurplus', houtcome'⟩ := hgh.packInto b offset values
    exact ⟨hbuffer'.trans hbuffer, hsurplus'.trans hsurplus,
      fun n => (houtcome' n).trans (houtcome n)⟩
  unpack data values := (hgh.unpack data values).trans (hfg.unpack data values)
  unpackFrom data offset values :=
    (hgh.unpackFrom data offset values).trans (hfg.unpackFrom data offset values)

lemma exists_of_planWalk {order : ByteOrder} {length given : ℕ}
    {steps : List (Except Fault Placement)} {values : List Value} {plan : Plan}
    (h : planWalk order length given steps values = .ok plan) :
    ∃ ps : List Placement, steps = ps.map .ok := by
  induction steps generalizing values plan with
  | nil => exact ⟨[], rfl⟩
  | cons step steps ih =>
    simp only [planWalk, bind, Except.bind] at h
    cases step with
    | error fault => cases h
    | ok p =>
      simp only at h
      split at h
      · cases h
      · split at h
        · cases h
        · next others ho =>
          obtain ⟨ps, rfl⟩ := ih ho
          exact ⟨p :: ps, rfl⟩

lemma exists_of_unpackFrom {f : Format} {data : Bytes} {offset : ℤ} {values : List Value}
    (h : f.unpackFrom data offset = .ok values) :
    ∃ ps : List Placement, f.walk offset = ps.map .ok := by
  unfold unpackFrom at h
  generalize f.walk offset = steps at h
  cases hparts : steps.mapM fun (step : Except Fault Placement) =>
      step.bind fun p => p.values f.order data with
  | error fault => rw [hparts] at h; cases h
  | ok parts =>
    clear h
    have hall := mapM_eq_ok_iff.mp hparts
    clear hparts
    induction hall with
    | nil => exact ⟨[], rfl⟩
    | @cons step _ steps _ hstep _ ih =>
      obtain ⟨ps, rfl⟩ := ih
      cases step with
      | error fault => cases hstep
      | ok p => exact ⟨p :: ps, rfl⟩

variable {f g : Format}

lemma plan_iff_of_matching (ho : g.order = f.order) {offset : ℤ}
    (hm : Matching (f.walk offset) (g.walk offset)) (length : ℕ) (values : List Value)
    (plan : Plan) :
    g.plan length offset values = .ok plan ↔ f.plan length offset values = .ok plan := by
  cases hm with
  | stopped fault h h' =>
    have hnone : ∀ {k : Format}, (k.walk offset).mapM id = .error fault →
        k.plan length offset values ≠ .ok plan := by
      intro k hk hplan
      obtain ⟨ps, hps⟩ := exists_of_planWalk hplan
      rw [mapM_id_eq_ok_iff.mpr hps] at hk
      cases hk
    exact iff_of_false (hnone h') (hnone h)
  | through ps qs hw hw' hsame =>
    rw [plan_eq_ok_iff hw, plan_eq_ok_iff hw', hsame.fieldsOf_eq, hsame.inside, ho]

lemma unpackFrom_iff_of_matching (ho : g.order = f.order) {offset : ℤ}
    (hm : Matching (f.walk offset) (g.walk offset)) (data : Bytes) (values : List Value) :
    g.unpackFrom data offset = .ok values ↔ f.unpackFrom data offset = .ok values := by
  cases hm with
  | stopped fault h h' =>
    have hnone : ∀ {k : Format}, (k.walk offset).mapM id = .error fault →
        k.unpackFrom data offset ≠ .ok values := by
      intro k hk hvalues
      obtain ⟨ps, hps⟩ := exists_of_unpackFrom hvalues
      rw [mapM_id_eq_ok_iff.mpr hps] at hk
      cases hk
    exact iff_of_false (hnone h') (hnone h)
  | through ps qs hw hw' hsame =>
    rw [unpackFrom_eq_ok_iff hw, unpackFrom_eq_ok_iff hw', hsame.fieldsOf_eq, hsame.inside, ho]

/-- Two results that are the same as soon as one of them is one. -/
lemma same_or_errors {α : Type} {x y : Except Fault α} (h : ∀ a, y = .ok a ↔ x = .ok a) :
    (∃ a, x = .ok a ∧ y = .ok a) ∨ ∃ e e', x = .error e ∧ y = .error e' := by
  cases x with
  | ok a => exact .inl ⟨a, rfl, (h a).mpr rfl⟩
  | error e =>
    cases y with
    | ok a => cases (h a).mp rfl
    | error e' => exact .inr ⟨e, e', rfl, rfl⟩

lemma size_eq_of_matching (hm : Matching (f.walk 0) (g.walk 0)) : g.size = f.size := by
  unfold size placements
  cases hm with
  | stopped fault h h' => rw [h, h']
  | through ps qs hw hw' hsame =>
    rw [mapM_id_eq_ok_iff.mpr hw, mapM_id_eq_ok_iff.mpr hw', Except.map, Except.map, hsame.stop]

lemma layout_eq_of_matching (hm : Matching (f.walk 0) (g.walk 0)) : g.layout = f.layout := by
  rw [layout_eq_fieldsFrom, layout_eq_fieldsFrom, fieldsFrom, fieldsFrom, placements, placements]
  cases hm with
  | stopped fault h h' => rw [h, h']
  | through ps qs hw hw' hsame =>
    rw [mapM_id_eq_ok_iff.mpr hw, mapM_id_eq_ok_iff.mpr hw', Except.map, Except.map,
      hsame.fieldsOf_eq]

lemma pack_iff_of_matching [Host] (ho : g.order = f.order) (hm : Matching (f.walk 0) (g.walk 0))
    (values : List Value) (record : PackedRecord) :
    g.pack values = .ok record ↔ f.pack values = .ok record := by
  simp only [pack, size_eq_of_matching hm, bind, Except.bind]
  cases f.size with
  | error fault => rfl
  | ok size =>
    simp only
    cases allocate size with
    | error fault => rfl
    | ok length =>
      simp only
      obtain ⟨plan, hf, hg⟩ | ⟨e, e', hf, hg⟩ :=
        same_or_errors (plan_iff_of_matching ho hm length values)
      · rw [hf, hg]
      · rw [hf, hg]
        simp

/-- Formats whose walks match have the same records. -/
theorem equivalent_of_matching [Host] (ho : g.order = f.order)
    (hm : ∀ offset, Matching (f.walk offset) (g.walk offset)) : f.Equivalent g := by
  have hlayout := layout_eq_of_matching (hm 0)
  refine ⟨size_eq_of_matching (hm 0), hlayout, by rw [arity, hlayout, arity],
    pack_iff_of_matching ho (hm 0), fun b offset values => ?_,
    unpackFrom_iff_of_matching ho (hm 0),
    fun data offset => unpackFrom_iff_of_matching ho (hm offset) data⟩
  unfold packInto
  split
  · exact ⟨rfl, rfl, fun n => Iff.rfl⟩
  · obtain ⟨plan, hf, hg⟩ | ⟨e, e', hf, hg⟩ :=
      same_or_errors (plan_iff_of_matching ho (hm offset) b.data.length values)
    · rw [hf, hg]
      exact ⟨rfl, rfl, fun n => Iff.rfl⟩
    · rw [hf, hg]
      exact ⟨rfl, rfl, fun n => by simp⟩

/-! ## Repetition -/

section Repetition

variable (order : ByteOrder) {code : Code} (hc : code ≠ .known .string)
include hc

/-- A token of any type but a string can be cut in two. -/
theorem equivalent_cut [Host] (m n : ℕ) (before rest : List Token) (descriptor descriptor' : Text) :
    Equivalent ⟨order, before ++ ⟨m + n, code⟩ :: rest, descriptor⟩
      ⟨order, before ++ ⟨m, code⟩ :: ⟨n, code⟩ :: rest, descriptor'⟩ :=
  equivalent_of_matching rfl fun offset =>
    (cutWalk_place order hc m n before rest offset).matching

/-- A repeat count means repetition: in any place, a token of any type but a string can be written
as that many tokens of one element. -/
theorem equivalent_replicate [Host] {count : ℕ} (hcount : 0 < count) (before rest : List Token)
    (descriptor descriptor' : Text) :
    Equivalent ⟨order, before ++ ⟨count, code⟩ :: rest, descriptor⟩
      ⟨order, before ++ List.replicate count ⟨1, code⟩ ++ rest, descriptor'⟩ := by
  induction count, hcount using Nat.le_induction generalizing before descriptor with
  | base =>
    have htokens : before ++ List.replicate 1 ⟨1, code⟩ ++ rest =
        before ++ ⟨(1 : ℕ), code⟩ :: rest := by simp
    rw [htokens]
    exact equivalent_of_matching rfl fun offset => .same _
  | succ count hcount ih =>
    -- One element is cut off and belongs to what is before the others.
    have hcut := equivalent_cut order hc 1 count before rest descriptor descriptor
    have hrest := ih (before ++ [⟨1, code⟩]) descriptor
    have htokens : before ++ [⟨1, code⟩] ++ List.replicate count ⟨1, code⟩ =
        before ++ List.replicate (count + 1) ⟨1, code⟩ := by
      rw [List.replicate_succ, List.append_assoc, List.singleton_append]
    have hadd : ((1 : ℕ) : ℤ) + count = (count + 1 : ℕ) := by push_cast; ring
    rw [htokens, List.append_assoc before [_], List.singleton_append] at hrest
    rw [hadd] at hcut
    exact hcut.trans hrest

end Repetition

/-- Three numbers behind a byte, with padding in front of the first of them only. -/
theorem equivalent_replicate_int32 :
    ∃ record,
      Format.pack ⟨.nativeAligned, [⟨1, .known .int8⟩] ++ ⟨(3 : ℕ), .known .int32⟩ ::
        [⟨1, .known .int16⟩], "@b3ih"⟩ [.int 1, .int 2, .int 3, .int (-4), .int 5] = .ok record ∧
      Format.pack ⟨.nativeAligned, [⟨1, .known .int8⟩] ++ List.replicate 3 ⟨1, .known .int32⟩ ++
        [⟨1, .known .int16⟩], "@biiih"⟩ [.int 1, .int 2, .int 3, .int (-4), .int 5] =
          .ok record ∧
      record.data = [1, 0, 0, 0, 2, 0, 0, 0, 3, 0, 0, 0, 0xFC, 0xFF, 0xFF, 0xFF, 5, 0] := by
  have hequivalent := equivalent_replicate .nativeAligned
    (show Code.known .int32 ≠ .known .string by decide) (show 0 < 3 by decide)
    [⟨1, .known .int8⟩] [⟨1, .known .int16⟩] "@b3ih" "@biiih"
  have hpack : Format.pack ⟨.nativeAligned, [⟨1, .known .int8⟩] ++ ⟨(3 : ℕ), .known .int32⟩ ::
      [⟨1, .known .int16⟩], "@b3ih"⟩ [.int 1, .int 2, .int 3, .int (-4), .int 5] =
        .ok ⟨[1, 0, 0, 0, 2, 0, 0, 0, 3, 0, 0, 0, 0xFC, 0xFF, 0xFF, 0xFF, 5, 0], 0, 5⟩ := by
    cbv
  exact ⟨_, hpack, (hequivalent.pack _ _).mpr hpack, rfl⟩

end Format

end BinaryLayout
