import BinaryLayout.Proofs.LeastPlacements
import BinaryLayout.Proofs.SizeBounds

/-!
# Room for a record at any offset

A record that is not at a multiple of its alignment may end farther from its offset than it is
large, or nearer, as gaps appear and vanish along the walk. Still, it ends no earlier than a record
from an earlier offset, and at the multiples of the alignment it takes just its size. Between two
neighbouring multiples its end therefore differs by less than the alignment, however many gaps there
are.
-/
namespace BinaryLayout

namespace Chain

variable {start start' stop stop' : ℤ} {ps qs : List Placement}

lemma stop_unique (h : Chain start ps stop) (h' : Chain start ps stop') : stop = stop' :=
  h.stop_getLast.symm.trans h'.stop_getLast

/-- The same tokens at no later places end no later. -/
lemma stop_le_of_noLater (hps : List.Forall₂ Placement.NoLater ps qs) (hle : start ≤ start')
    (h : Chain start ps stop) (h' : Chain start' qs stop') : stop ≤ stop' := by
  induction hps generalizing start start' with
  | nil =>
    cases h
    cases h'
    exact hle
  | cons hfirst _ ih =>
    cases h with
    | cons _ _ htail =>
      cases h' with
      | cons _ _ htail' => exact ih hfirst.stop_le htail htail'

end Chain

namespace Format

variable {f : Format} {offset offset' stop stop' size : ℤ} {ps qs : List Placement}

/-- The last token of the format, placed from an offset on, ends at another one. -/
def EndsAt (f : Format) (offset stop : ℤ) : Prop :=
  ∃ (ps : List Placement) (p : Placement), f.walk offset = ps.map .ok ∧ ps.getLast? = some p ∧
    p.stop = stop

lemma alignment_pos (f : Format) : 0 < f.alignment := by
  unfold alignment
  split
  · obtain ⟨n, hn⟩ := exists_largestAlignment_eq_two_pow f.tokens
    rw [hn]
    exact Nat.two_pow_pos n
  · exact Nat.one_pos

lemma endsAt_of_walk (hne : f.tokens ≠ []) (hw : f.walk offset = ps.map .ok)
    (hc : Chain offset ps stop) : f.EndsAt offset stop := by
  have hps := ne_nil_of_walk hne hw
  have hlast := hc.stop_getLast
  rw [List.getLast?_eq_getLast_of_ne_nil hps] at hlast
  exact ⟨ps, _, hw, List.getLast?_eq_getLast_of_ne_nil hps, hlast⟩

/-- A later record ends no earlier. -/
lemma stop_mono (hle : offset ≤ offset') (hw : f.walk offset = ps.map .ok)
    (hc : Chain offset ps stop) (hw' : f.walk offset' = qs.map .ok)
    (hc' : Chain offset' qs stop') : stop ≤ stop' :=
  hc.stop_le_of_noLater (noLater_of_place hw (arranges_of_place hw') hle) hle hc'

/-- At a multiple of its alignment a record takes its size. -/
lemma stop_of_dvd (hd : (f.alignment : ℤ) ∣ offset) (hw : f.walk 0 = ps.map .ok)
    (hc : Chain 0 ps size) (hw' : f.walk offset = qs.map .ok) (hc' : Chain offset qs stop) :
    stop = offset + size := by
  have hmoved := walk_moved hw (movable hd)
  obtain rfl : qs = ps.map (Placement.moved offset) :=
    List.map_injective_iff.mpr (fun _ _ h => Except.ok.inj h) (hw'.symm.trans hmoved)
  exact hc'.stop_unique (hc.movedTo offset)

/-- The end of a record lies between those of the records at the multiples of the alignment around
its offset. -/
lemma natAbs_stop_sub_lt {stop : ℤ → ℤ}
    (hmono : ∀ offset offset', offset ≤ offset' → stop offset ≤ stop offset')
    (hdvd : ∀ offset, (f.alignment : ℤ) ∣ offset → stop offset = offset + size) (offset : ℤ) :
    (stop offset - offset - size).natAbs < f.alignment := by
  have hpos : (0 : ℤ) < f.alignment := by exact_mod_cast f.alignment_pos
  have hmod := Int.emod_lt_of_pos offset hpos
  have hpad := padCount_lt offset hpos
  have hbelow := hmono _ _ (Int.sub_le_self offset (Int.emod_nonneg offset hpos.ne'))
  have habove := hmono offset _ (Int.le_add_of_nonneg_right (padCount_nonneg offset hpos))
  rw [hdvd _ (Int.dvd_self_sub_emod)] at hbelow
  rw [hdvd _ (dvd_add_padCount offset hpos)] at habove
  omega

lemma not_bufferTooSmall_of_inside (hw : f.walk offset = ps.map .ok) (hc : Chain offset ps stop)
    {b : Buffer} (hin : ∀ p ∈ ps, p.Inside b.data.length) (values : List Value)
    (start size : ℤ) (length : ℕ) :
    (f.packInto b offset values).outcome ≠ .error (.bufferTooSmall start size length) ∧
      f.unpackFrom b.data offset ≠ .error (.bufferTooSmall start size length) := by
  constructor
  · intro h
    obtain hkind | hplan := packInto_eq_error hw hc h
    · cases hkind
    · rw [plan_of_inside hw hin] at hplan
      obtain hfew | hvalue := planFields_eq_error hplan
      · cases hfew
      · cases hvalue
  · intro h
    obtain ⟨_, _, _, _, -, -, -, -, hfault⟩ := (unpackFrom_of_inside hw hc hin).2 _ h
    cases hfault

lemma stop_le_of_packInto (hw : f.walk offset = ps.map .ok) (hc : Chain offset ps stop)
    (hps : ps ≠ []) (h0 : 0 ≤ offset) {b : Buffer} {values : List Value} {n : ℕ}
    (h : (f.packInto b offset values).outcome = .ok n) : stop ≤ b.data.length := by
  obtain ⟨-, plan, hplan⟩ := plan_of_packInto h
  exact (hc.inside_iff h0 hps).mp ((plan_eq_ok_iff hw).mp hplan).1

/-- How far a record at an offset reaches. Its end never moves back when the offset grows, at the
offset zero it is the size, and elsewhere it is off by less than the alignment. So a buffer that has
that much room more is never too small, and one that is shorter by that much more takes no record,
whatever the values. -/
theorem endsAt_bounds {d : Text} (hd : Descriptor.compile d = .ok f) (hne : f.tokens ≠ []) :
    ∃ (stop : ℤ → ℤ) (size : ℤ), (∀ offset, f.EndsAt offset (stop offset)) ∧
      (∀ offset offset', offset ≤ offset' → stop offset ≤ stop offset') ∧
      f.size = .ok size ∧ stop 0 = size ∧
      (∀ offset, (stop offset - offset - size).natAbs < f.alignment) ∧
      ∀ offset, 0 ≤ offset → ∀ (b : Buffer) (values : List Value),
        (offset + size + (f.alignment - 1) ≤ b.data.length → ∀ start size length,
          (f.packInto b offset values).outcome ≠ .error (.bufferTooSmall start size length) ∧
          f.unpackFrom b.data offset ≠ .error (.bufferTooSmall start size length)) ∧
        (b.data.length < offset + size - (f.alignment - 1) → ∀ n,
          (f.packInto b offset values).outcome ≠ .ok n) := by
  choose ps stop hw hc using (Descriptor.wellFormed_of_compile hd).exists_chain
  have hmono : ∀ offset offset', offset ≤ offset' → stop offset ≤ stop offset' :=
    fun offset offset' hle => stop_mono hle (hw offset) (hc offset) (hw offset') (hc offset')
  have hbound := natAbs_stop_sub_lt hmono fun offset hdvd =>
    stop_of_dvd hdvd (hw 0) (hc 0) (hw offset) (hc offset)
  refine ⟨stop, stop 0, fun offset => endsAt_of_walk hne (hw offset) (hc offset), hmono,
    size_of_walk (hw 0) (hc 0), rfl, hbound, fun offset h0 b values => ⟨fun hroom => ?_,
    fun hshort n hn => ?_⟩⟩
  · have hstop := hbound offset
    exact not_bufferTooSmall_of_inside (hw offset) (hc offset)
      ((hc offset).inside h0 (by omega)) values
  · have hstop := hbound offset
    have hle := stop_le_of_packInto (hw offset) (hc offset) (ne_nil_of_walk hne (hw offset)) h0 hn
    omega

/-- A number in front of a byte takes five bytes, but from the offset one it ends three bytes
farther on than that, which is as far as the alignment lets it. Nine bytes are room for it, and two
are not. -/
theorem endsAt_bounds_one :
    ∃ f, Descriptor.compile "@ib" = .ok f ∧ f.tokens ≠ [] ∧ f.size = .ok 5 ∧ f.EndsAt 1 9 ∧
      ∀ values, (∀ start size length,
          (f.packInto (.whole .growable (.zeros 9)) 1 values).outcome ≠
            .error (.bufferTooSmall start size length)) ∧
        ∀ n, (f.packInto (.whole .growable (.zeros 2)) 1 values).outcome ≠ .ok n := by
  have hd : Descriptor.compile "@ib" =
      .ok ⟨.nativeAligned, [⟨1, .known .int32⟩, ⟨1, .known .int8⟩], "@ib"⟩ := by cbv
  obtain ⟨stop, size, -, -, hsize, -, -, hroom⟩ := endsAt_bounds hd (List.cons_ne_nil _ _)
  obtain rfl : size = 5 := Except.ok.inj (hsize.symm.trans (by rfl))
  refine ⟨_, hd, List.cons_ne_nil _ _, hsize,
    ⟨[⟨4, 1, .int32⟩, ⟨8, 1, .int8⟩], _, by rfl, rfl, by decide⟩, fun values => ⟨?_, ?_⟩⟩
  · intro start size length
    exact ((hroom 1 (by decide) _ values).1 (by decide) start size length).1
  · exact (hroom 1 (by decide) _ values).2 (by decide)

end Format

end BinaryLayout
