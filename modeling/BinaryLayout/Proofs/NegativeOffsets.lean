import BinaryLayout.Proofs.Records
import Mathlib.Data.List.Permutation

/-!
# Negative offsets

A token is checked against the buffer where alignment has moved it to. So an offset below zero is
refused, unless the first token is aligned and zero is the next multiple of its alignment: then
the record is packed and unpacked as at the start.
-/
namespace BinaryLayout

/-- The next multiple of the alignment of a type, from an offset below zero on, is zero. -/
def ByteOrder.ReachesStart (order : ByteOrder) (s : Specifier) (offset : ℤ) : Prop :=
  order.aligned = true ∧ -(s.alignment : ℤ) < offset

namespace ByteOrder

variable {order : ByteOrder} {s : Specifier} {offset : ℤ}

lemma align_zero (order : ByteOrder) (s : Specifier) : order.align s 0 = 0 := by
  have hpos : (0 : ℤ) < s.alignment := by exact_mod_cast s.alignment_pos
  unfold align
  rw [padCount_eq_emod 0 hpos]
  simp

/-- Less than the alignment below zero a type is moved to zero. -/
lemma align_of_reachesStart (h : offset < 0) (hr : order.ReachesStart s offset) :
    order.align s offset = 0 := by
  obtain ⟨haligned, hlow⟩ := hr
  have hpos : (0 : ℤ) < s.alignment := by exact_mod_cast s.alignment_pos
  unfold align
  rw [if_pos haligned, padCount_eq_emod offset hpos, Int.emod_eq_of_lt (by omega) (by omega)]
  omega

/-- Otherwise it stays below zero. -/
lemma align_neg (h : offset < 0) (hr : ¬order.ReachesStart s offset) :
    order.align s offset < 0 := by
  have hpos : (0 : ℤ) < s.alignment := by exact_mod_cast s.alignment_pos
  unfold align
  split
  · next haligned =>
    have hlt := padCount_lt offset hpos
    have hlow : ¬-(s.alignment : ℤ) < offset := fun hlow => hr ⟨haligned, hlow⟩
    omega
  · exact h

end ByteOrder

namespace Format

variable {f : Format} {offset : ℤ} {p : Placement} {steps : List (Except Fault Placement)}

/-- A first token outside the buffer is all that packing and unpacking look at. -/
lemma refused_of_check (hw : f.walk offset = .ok p :: steps) {b : Buffer} {fault : Fault}
    (h : p.check b.data.length = .error fault) (hb : b.holding.readOnly = false)
    (values : List Value) :
    f.packInto b offset values = ⟨b, 0, .error fault⟩ ∧
      f.unpackFrom b.data offset = .error fault := by
  constructor
  · have hplan : f.plan b.data.length offset values = .error fault := by
      rw [plan, hw]
      simp only [planWalk, p.plan_eq f.order _ _ 0, h, bind, Except.bind]
    simp only [packInto, hb, hplan, Bool.false_eq_true, if_false]
  · rw [unpackFrom, hw, List.mapM_cons]
    simp only [p.values_eq f.order _ 0, h, bind, Except.bind]
    rfl

/-- Values that fit their fields are packed just when there is room for the record. -/
lemma packInto_of_holds (h : f.WellFormed) :
    ∃ fields size, f.layout = .ok fields ∧ f.size = .ok size ∧
      ∀ (b : Buffer) values, b.holding.readOnly = false →
        List.Forall₂ FieldLayout.Holds fields values →
        (size ≤ b.data.length → ∃ data,
          f.packInto b 0 values = ⟨{ b with data := data }, 0, .ok fields.length⟩) ∧
        (b.data.length < size → ∃ p : Placement, f.packInto b 0 values =
          ⟨b, 0, .error (Fault.bufferTooSmall p.offset p.size b.data.length).limited⟩) := by
  obtain ⟨ps, stop, hw, hc⟩ := h.exists_chain 0
  refine ⟨fieldsOf 0 ps, stop, fieldsFrom_of_walk hw, size_of_walk hw hc, ?_⟩
  intro b values hb hv
  obtain ⟨writes, hplan⟩ := exists_plan_of_holds f.order values.length hv
    fun e he => (hc.field_bounds he).1
  obtain ⟨hlength, -⟩ := planFields_lengths hplan
  constructor
  · intro hroom
    have hp := (plan_eq_ok_iff hw).mpr ⟨hc.inside (le_refl 0) hroom, hplan⟩
    rw [packInto_of_plan hw hc hb hp]
    exact ⟨_, by rw [← hlength]; rfl⟩
  · intro hroom
    cases hp : f.plan b.data.length 0 values with
    | ok plan =>
      have hstop := hc.stop_le (by omega) ((plan_eq_ok_iff hw).mp hp).1
      omega
    | error fault =>
      have hpack : f.packInto b 0 values = ⟨b, 0, .error fault⟩ := by
        simp only [packInto, hb, hp, Bool.false_eq_true, if_false]
      rw [plan, hw] at hp
      obtain ⟨p, -, hcheck⟩ | hfields := planWalk_eq_error 0 hp
      · refine ⟨p, ?_⟩
        unfold Placement.check at hcheck
        by_cases hin : p.Inside b.data.length
        · rw [if_pos hin] at hcheck
          cases hcheck
        · rw [if_neg hin] at hcheck
          rw [hpack, Except.error.inj hcheck]
      · rw [hplan] at hfields
        cases hfields

/-- A record at a negative offset is refused for want of room, unless alignment moves its first
token to the start. Then it is packed and unpacked as at the start, where values that fit their
fields are refused for want of room only. -/
theorem packInto_of_neg {d : Text} (hd : Descriptor.compile d = .ok f) {t : Token}
    {rest : List Token} (ht : f.tokens = t :: rest) {offset : ℤ} (h : offset < 0) :
    ∃ s, t.code = .known s ∧
      (¬f.order.ReachesStart s offset →
        ∀ (b : Buffer) values, b.holding.readOnly = false →
          f.packInto b offset values = ⟨b, 0, .error (Fault.bufferTooSmall
            (f.order.align s offset) (t.count * s.size) b.data.length).limited⟩ ∧
          f.unpackFrom b.data offset = .error (Fault.bufferTooSmall
            (f.order.align s offset) (t.count * s.size) b.data.length).limited) ∧
      (f.order.ReachesStart s offset →
        (∀ (b : Buffer) values, f.packInto b offset values = f.packInto b 0 values ∧
          f.unpackFrom b.data offset = f.unpackFrom b.data 0) ∧
        ∃ fields size, f.layout = .ok fields ∧ f.size = .ok size ∧
          ∀ (b : Buffer) values, b.holding.readOnly = false →
            List.Forall₂ FieldLayout.Holds fields values →
            (size ≤ b.data.length → ∃ data,
              f.packInto b offset values = ⟨{ b with data := data }, 0, .ok fields.length⟩) ∧
            (b.data.length < size → ∃ p : Placement, f.packInto b offset values =
              ⟨b, 0, .error
                (Fault.bufferTooSmall p.offset p.size b.data.length).limited⟩)) := by
  have hwf := Descriptor.wellFormed_of_compile hd
  obtain ⟨hcount, s, hs⟩ := hwf t (ht ▸ List.mem_cons_self)
  have hwalk : ∀ start, f.walk start = .ok ⟨f.order.align s start, t.count, s⟩ ::
      place f.order (Placement.stop ⟨f.order.align s start, t.count, s⟩) rest := by
    intro start
    rw [walk, ht, place, hs]
    rfl
  refine ⟨s, hs, ?_, ?_⟩
  · intro hr b values hb
    have hneg := ByteOrder.align_neg h hr
    refine refused_of_check (hwalk offset) (if_neg ?_) hb values
    intro hin
    have h0 := hin.1
    simp only at h0
    omega
  · intro hr
    have hsame : f.walk offset = f.walk 0 := by
      rw [hwalk offset, hwalk 0, ByteOrder.align_of_reachesStart h hr, ByteOrder.align_zero]
    have hpack : ∀ (b : Buffer) values, f.packInto b offset values = f.packInto b 0 values := by
      intro b values
      simp only [packInto, plan, hsame]
    refine ⟨fun b values => ⟨hpack b values, by simp only [unpackFrom, hsame]⟩, ?_⟩
    simp only [hpack]
    exact packInto_of_holds hwf

/-- One byte below zero a number of four bytes is moved to the start. -/
theorem packInto_of_neg_one :
    ∃ f, Descriptor.compile "@i" = .ok f ∧ ∃ data,
      f.packInto (.whole .growable [0, 0, 0, 0]) (-1) [.int 5] =
        ⟨.whole .growable data, 0, .ok 1⟩ := by
  have hd : Descriptor.compile "@i" = .ok ⟨.nativeAligned, [⟨1, .known .int32⟩], "@i"⟩ := by cbv
  obtain ⟨s, hs, -, hnear⟩ := packInto_of_neg hd rfl (show (-1 : ℤ) < 0 by decide)
  cases hs
  obtain ⟨-, fields, size, hl, hsize, hroom⟩ := hnear ⟨rfl, by decide⟩
  obtain rfl : fields = [⟨0, 4, .int32, 0⟩] := Except.ok.inj (hl.symm.trans (by rfl))
  obtain rfl : size = 4 := Except.ok.inj (hsize.symm.trans (by rfl))
  have hv : List.Forall₂ FieldLayout.Holds [⟨0, 4, .int32, 0⟩] [.int 5] :=
    .cons ⟨rfl, by decide⟩ .nil
  exact ⟨_, hd, (hroom (.whole .growable [0, 0, 0, 0]) [.int 5] rfl hv).1 (by decide)⟩

end Format

end BinaryLayout
