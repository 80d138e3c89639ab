import BinaryLayout.Buffer
import Mathlib.Algebra.Order.Ring.Int
import Mathlib.Data.List.Basic

/-!
# Writes inside a buffer

A write that lies inside the data puts its bytes there and leaves every other byte, and so do
writes one after the other. No kind of buffer refuses such writes or changes its length.
-/
namespace BinaryLayout

namespace Write

def Inside (w : Write) (length : ℕ) : Prop := w.offset + w.raw.length ≤ length

def Covers (w : Write) (i : ℕ) : Prop := w.offset ≤ i ∧ i < w.offset + w.raw.length

instance (w : Write) (i : ℕ) : Decidable (w.Covers i) := inferInstanceAs (Decidable (_ ∧ _))

end Write

namespace Bytes

/-! ## Bytes after writes -/

def spliceAll (data : Bytes) (writes : List Write) : Bytes :=
  writes.foldl (fun written w => written.splice w.offset w.raw) data

@[simp] theorem spliceAll_cons (data : Bytes) (w : Write) (rest : List Write) :
    data.spliceAll (w :: rest) = (data.splice w.offset w.raw).spliceAll rest := rfl

lemma getElem?_splice {data : Bytes} {w : Write} (h : w.Inside data.length) (i : ℕ) :
    (data.splice w.offset w.raw)[i]? =
      if w.Covers i then w.raw[i - w.offset]? else data[i]? := by
  have hlen : (data.take w.offset).length = w.offset := by
    rw [List.length_take]
    unfold Write.Inside at h
    omega
  unfold splice
  by_cases h1 : i < w.offset
  · have hcovers : ¬w.Covers i := fun hc => by
      have := hc.1
      omega
    rw [if_neg hcovers, List.append_assoc, List.getElem?_append_left (by omega),
      List.getElem?_take_of_lt h1]
  by_cases h2 : i < w.offset + w.raw.length
  · rw [if_pos ⟨by omega, h2⟩, List.append_assoc, List.getElem?_append_right (by omega), hlen,
      List.getElem?_append_left (by omega)]
  · rw [if_neg fun hc => h2 hc.2, List.getElem?_append_right (by rw [List.length_append]; omega),
      List.length_append, hlen, List.getElem?_drop]
    congr 1
    omega

lemma length_splice_inside {data : Bytes} {w : Write} (h : w.Inside data.length) :
    (data.splice w.offset w.raw).length = data.length := length_splice h

theorem length_spliceAll {data : Bytes} {writes : List Write}
    (h : ∀ w ∈ writes, w.Inside data.length) : (data.spliceAll writes).length = data.length := by
  induction writes generalizing data with
  | nil => rfl
  | cons w rest ih =>
    have hl := length_splice_inside (h w List.mem_cons_self)
    rw [spliceAll_cons, ih, hl]
    intro v hv
    rw [hl]
    exact h v (List.mem_cons_of_mem _ hv)

/-! ## Slices -/

lemma getElem?_slice {data : Bytes} {start stop : ℤ} (h0 : 0 ≤ start) (h1 : start ≤ stop)
    (h2 : stop ≤ data.length) (i : ℕ) :
    (data.slice start stop)[i]? =
      if i < (stop - start).toNat then data[start.toNat + i]? else none := by
  obtain ⟨a, rfl⟩ := Int.eq_ofNat_of_zero_le h0
  obtain ⟨b, rfl⟩ := Int.eq_ofNat_of_zero_le (h0.trans h1)
  rw [slice_of_le (by omega) (by omega), Int.toNat_natCast]
  have hlen : ((b : ℤ) - (a : ℤ)).toNat = b - a := by omega
  rw [hlen]
  split
  · next hi => rw [List.getElem?_take_of_lt hi, List.getElem?_drop]
  · next hi => rw [List.getElem?_take_eq_none (by omega)]

lemma length_slice {data : Bytes} {start stop : ℤ} (h0 : 0 ≤ start) (h1 : start ≤ stop)
    (h2 : stop ≤ data.length) : (data.slice start stop).length = (stop - start).toNat := by
  obtain ⟨a, rfl⟩ := Int.eq_ofNat_of_zero_le h0
  obtain ⟨b, rfl⟩ := Int.eq_ofNat_of_zero_le (h0.trans h1)
  rw [slice_of_le (by omega) (by omega), List.length_take, List.length_drop]
  omega

lemma slice_congr {data other : Bytes} {start stop : ℤ} (h0 : 0 ≤ start) (h1 : start ≤ stop)
    (h2 : stop ≤ data.length) (hl : other.length = data.length)
    (h : ∀ i : ℕ, start ≤ i → (i : ℤ) < stop → other[i]? = data[i]?) :
    other.slice start stop = data.slice start stop := by
  apply List.ext_getElem?
  intro i
  rw [getElem?_slice h0 h1 (hl ▸ h2), getElem?_slice h0 h1 h2]
  split
  · exact h _ (by omega) (by omega)
  · rfl

end Bytes

namespace Buffer

theorem writeAll_of_inside {b : Buffer} {writes : List Write}
    (h : ∀ w ∈ writes, w.Inside b.data.length) :
    b.writeAll writes = ⟨{ b with data := b.data.spliceAll writes }, true⟩ := by
  induction writes generalizing b with
  | nil => rfl
  | cons w rest ih =>
    have hw := h w List.mem_cons_self
    have hone : b.write? w = some { b with data := b.data.splice w.offset w.raw } := by
      unfold write?
      split
      · exact if_pos (.inr hw)
      · rfl
    have hrest : ∀ v ∈ rest, v.Inside (b.data.splice w.offset w.raw).length := by
      intro v hv
      rw [Bytes.length_splice_inside hw]
      exact h v (List.mem_cons_of_mem _ hv)
    rw [writeAll, hone]
    simp only
    rw [ih hrest]
    rfl

end Buffer

end BinaryLayout
