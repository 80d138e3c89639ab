import BinaryLayout.Proofs.EncodableValues
import BinaryLayout.Proofs.SizeBounds
import BinaryLayout.Proofs.Transfers
import Mathlib.Data.ENat.Basic
import Mathlib.Data.ENat.Lattice

/-!
# Transfers by a schedule

A device may give and take its bytes in portions, and a schedule says how large they are. It may
also give or take nothing for once, and then a transfer ends. What was transferred until then is as
much as the schedule grants before that, and however it is divided into portions, it is the start of
the data, in order and without a gap: each request asks for what is missing, and each offer is what
is left.
-/
namespace BinaryLayout

open Fault

namespace Device

/-! ## What a schedule grants -/

/-- How many bytes a schedule grants before it grants none. Behind its end it grants any. -/
def allowance : List (Option ℕ) → ℕ∞
  | [] => ⊤
  | none :: _ | some 0 :: _ => 0
  | some (k + 1) :: rest => (k + 1 : ℕ) + allowance rest

variable {schedule : List (Option ℕ)} {request available : ℕ}

lemma Grants.allowance_eq_top (h : Grants schedule) : allowance schedule = ⊤ := by
  induction schedule with
  | nil => rfl
  | cons g rest ih =>
    obtain ⟨k, rfl, hk⟩ := h g List.mem_cons_self
    obtain ⟨k, rfl⟩ := Nat.exists_eq_succ_of_ne_zero hk.ne'
    rw [allowance, ih h.tail, add_top]

/-- Where a portion is empty, nothing is available or nothing is granted any more. -/
lemma min_allowance_of_empty (hr : 0 < request) (h : min (granted schedule request) available = 0) :
    min ((min request available : ℕ) : ℕ∞) (allowance schedule) = 0 := by
  rcases Nat.eq_zero_or_pos available with rfl | ha
  · simp
  · have hnone : granted schedule request = 0 := by omega
    match schedule, hnone with
    | [], h => exact absurd h hr.ne'
    | none :: _, _ => exact min_eq_right zero_le
    | some 0 :: _, _ => exact min_eq_right zero_le
    | some (k + 1) :: _, h =>
      simp only [granted] at h
      omega

/-- What is transferred with a portion and behind it. -/
lemma min_allowance_of_portion {n : ℕ} (hn : n = min (granted schedule request) available)
    (hpos : 0 < n) :
    (n : ℕ∞) + min ((min (request - n) (available - n) : ℕ) : ℕ∞) (allowance schedule.tail) =
      min ((min request available : ℕ) : ℕ∞) (allowance schedule) := by
  match schedule with
  | [] =>
    simp only [granted] at hn
    rw [List.tail_nil, allowance, min_top_right, min_top_right]
    norm_cast
    omega
  | none :: _ | some 0 :: _ =>
    simp only [granted] at hn
    omega
  | some (k + 1) :: rest =>
    simp only [granted] at hn
    rw [allowance, List.tail_cons]
    -- The rest of the schedule may grant any number of bytes, and `omega` knows no such number.
    induction allowance rest using ENat.recTopCoe with
    | top =>
      rw [add_top, min_top_right, min_top_right]
      norm_cast
      omega
    | coe a =>
      have hmin : ∀ x y : ℕ, min (x : ℕ∞) y = (min x y : ℕ) := fun x y => Nat.mono_cast.map_min.symm
      rw [← Nat.cast_add, hmin, hmin, ← Nat.cast_add, Nat.cast_inj]
      omega

/-! ## Reading -/

/-- A request that is read in portions. Each read asks for all that is missing, until nothing is
or a read finds nothing: what each read asked for and what it was given, the device after them, and
what is missing in the end. -/
inductive Reads [Host] : Device → ℕ → List (ℕ × Bytes) → Device → ℕ → Prop where
  | filled (d : Device) : Reads d 0 [] d 0
  | stalled {d d' : Device} {n : ℕ} : 0 < n → d.read n = ⟨.ok (.bytes []), d'⟩ →
      Reads d n [(n, [])] d' n
  | portion {d d' last : Device} {n missing : ℕ} {chunk : Bytes} {reads : List (ℕ × Bytes)} :
      chunk ≠ [] → chunk.length ≤ n → d.read n = ⟨.ok (.bytes chunk), d'⟩ →
      Reads d' (n - chunk.length) reads last missing → Reads d n ((n, chunk) :: reads) last missing

def received (reads : List (ℕ × Bytes)) : Bytes := reads.flatMap Prod.snd

@[simp] lemma received_nil : received [] = [] := rfl

@[simp] lemma received_cons (n : ℕ) (chunk : Bytes) (reads : List (ℕ × Bytes)) :
    received ((n, chunk) :: reads) = chunk ++ received reads := rfl

namespace Reads

variable [Host] {d last : Device} {n missing : ℕ} {reads : List (ℕ × Bytes)}

lemma length_received (h : Reads d n reads last missing) :
    (received reads).length + missing = n := by
  induction h with
  | filled => rfl
  | stalled => simp
  | portion _ hle _ _ ih =>
    rw [received_cons, List.length_append]
    omega

/-- Each read asks for what has not been received yet. -/
lemma asked (h : Reads d n reads last missing) (i : ℕ) (hi : i < reads.length) :
    reads[i].1 + (received (reads.take i)).length = n := by
  induction h generalizing i with
  | filled => exact absurd hi (Nat.not_lt_zero i)
  | stalled =>
    obtain rfl : i = 0 := Nat.lt_one_iff.mp hi
    rfl
  | portion _ hle _ _ ih =>
    cases i with
    | zero => rfl
    | succ i =>
      have hrest := ih i (Nat.lt_of_succ_lt_succ hi)
      rw [List.take_succ_cons, received_cons, List.length_append, List.getElem_cons_succ]
      omega

lemma bounds (h : Reads d n reads last missing) : ∀ r ∈ reads, 0 < r.1 ∧ r.1 ≤ n := by
  induction h with
  | filled => exact List.forall_mem_nil _
  | stalled hn _ => exact List.forall_mem_singleton.mpr ⟨hn, le_refl _⟩
  | portion hne hle _ _ ih =>
    have hpos := List.length_pos_iff.mpr hne
    refine List.forall_mem_cons.mpr ⟨⟨by omega, le_refl _⟩, fun r hr => ?_⟩
    exact ⟨(ih r hr).1, (ih r hr).2.trans (Nat.sub_le _ _)⟩

lemma decreasing (h : Reads d n reads last missing) :
    (reads.map Prod.fst).Pairwise (· > ·) := by
  induction h with
  | filled => exact .nil
  | stalled => exact List.pairwise_singleton _ _
  | portion hne hle _ hrest ih =>
    have hpos := List.length_pos_iff.mpr hne
    refine List.pairwise_cons.mpr ⟨fun asked hasked => ?_, ih⟩
    obtain ⟨r, hr, rfl⟩ := List.mem_map.mp hasked
    have := (hrest.bounds r hr).2
    omega

lemma missing_eq_zero_iff (h : Reads d n reads last missing) :
    missing = 0 ↔ ∀ r ∈ reads, r.2 ≠ [] := by
  induction h with
  | filled => exact iff_of_true rfl (List.forall_mem_nil _)
  | stalled hn _ =>
    exact iff_of_false hn.ne' fun hall => hall _ List.mem_cons_self rfl
  | portion hne _ _ _ ih =>
    rw [ih, List.forall_mem_cons]
    exact (and_iff_right hne).symm

/-- Reading is making these reads: it gives what they were given, unless something is missing. -/
theorem readRemaining (h : Reads d n reads last missing) (requested : ℤ) :
    d.readRemaining requested n =
      ⟨if missing = 0 then .ok (reads.map fun r => .bytes r.2)
        else .error (truncatedStream requested (requested - missing)).limited, last⟩ := by
  induction h with
  | filled => rw [Device.readRemaining, if_pos rfl, if_pos rfl, List.map_nil]
  | stalled hn hread =>
    rw [Device.readRemaining, if_neg hn.ne', if_neg hn.ne']
    simp only [hread]
    rfl
  | @portion d d' last n missing chunk reads hne hle hread _ ih =>
    have hpos := List.length_pos_iff.mpr hne
    have hn : n ≠ 0 := by omega
    have hchunk : ¬(Chunk.bytes chunk).length = 0 := hpos.ne'
    rw [Device.readRemaining, if_neg hn]
    simp only [hread, dif_neg hchunk]
    rw [Chunk.length, ih, Attempt.map]
    split <;> rfl

omit [Host] in
lemma join_reads (reads : List (ℕ × Bytes)) :
    Chunk.join (reads.map fun r => .bytes r.2) = .ok (received reads) := by
  induction reads with
  | nil => rfl
  | cons r reads ih =>
    rw [List.map_cons, join_cons, ih]
    rfl

/-- A request for bytes that come first in what the reads were given gets them, unless something is
missing. -/
theorem readExactly {n : ℤ} (h : Reads d n.toNat reads last missing) {data : Bytes}
    (hfirst : received reads <+: data) :
    d.readExactly n =
      ⟨if n ≤ (received reads).length then .ok (data.take n.toNat)
        else .error (truncatedStream n (received reads).length).limited, last⟩ := by
  have hlength := h.length_received
  rw [Device.readExactly, h.readRemaining]
  dsimp only
  by_cases hmissing : missing = 0
  · have hall : n.toNat = (received reads).length := by omega
    rw [if_pos hmissing, if_pos (by omega), Except.bind, join_reads, hall,
      ← List.prefix_iff_eq_take.mp hfirst]
  · have hgiven : n - missing = (received reads).length := by omega
    rw [if_neg hmissing, if_neg (by omega), hgiven]
    rfl

end Reads

lemma showable_of_lt_of_showable {k : ℕ} {n : ℤ} (hk : k < n) (hn : Numeral.Showable n) :
    Numeral.Showable k := by
  unfold Numeral.Showable at *
  omega

/-- What a request that is not filled is refused with. -/
lemma limited_truncatedStream {k : ℕ} {n : ℤ} (hk : k < n) :
    (Numeral.Showable n → (truncatedStream n k).limited = .truncatedStream n k) ∧
      (¬Numeral.Showable n → (truncatedStream n k).limited = .unshowable none) := by
  constructor
  · intro hn
    rw [limited, if_pos ⟨hn, showable_of_lt_of_showable hk hn⟩]
  · intro hn
    rw [limited, if_neg fun h => hn h.1]

section Source

variable [Host]

/-- The state of a source after some reads. -/
def sourceAfter (data : Bytes) (position : ℕ) (schedule : List (Option ℕ)) (calls : List ℕ)
    (reads : List (ℕ × Bytes)) : Device :=
  .source data (position + (received reads).length) (schedule.drop reads.length)
    (calls ++ reads.map Prod.fst)

/-- A source is read until the request is filled, the data is at its end or the schedule grants
nothing, and behind the schedule one read is enough for all that is there. -/
lemma exists_reads_source (data : Bytes) (position : ℕ) (schedule : List (Option ℕ))
    (calls : List ℕ) (n : ℕ) :
    ∃ reads missing, Reads (.source data position schedule calls) n reads
        (sourceAfter data position schedule calls reads) missing ∧
      received reads <+: data.drop position ∧
      ((received reads).length : ℕ∞) =
        min ((min n (data.length - position) : ℕ) : ℕ∞) (allowance schedule) ∧
      reads.length ≤ schedule.length + min n 1 + min (data.length - position) 1 := by
  -- The induction is on what is missing, which a read that finds something makes less.
  induction n using Nat.strong_induction_on generalizing position schedule calls with
  | _ n ih =>
    obtain rfl | hn := Nat.eq_zero_or_pos n
    · have hself : sourceAfter data position schedule calls [] =
          .source data position schedule calls := by
        simp [sourceAfter]
      exact ⟨[], 0, hself ▸ .filled _, List.nil_prefix, by simp, Nat.zero_le _⟩
    let chunk := (data.drop position).take (granted schedule n)
    have hread : (source data position schedule calls).read n = ⟨.ok (.bytes chunk),
        .source data (position + chunk.length) schedule.tail (calls ++ [n])⟩ := rfl
    have hlength : chunk.length = min (granted schedule n) (data.length - position) := by
      rw [List.length_take, List.length_drop]
    have hprefix : chunk <+: data.drop position := List.take_prefix _ _
    obtain hempty | hpos := Nat.eq_zero_or_pos chunk.length
    · have hnil : chunk = [] := List.length_eq_zero_iff.mp hempty
      rw [hnil] at hread
      refine ⟨[(n, [])], n, ?_, List.nil_prefix, ?_, ?_⟩
      · have hafter : sourceAfter data position schedule calls [(n, [])] =
            .source data position schedule.tail (calls ++ [n]) := by
          simp [sourceAfter]
        exact hafter ▸ .stalled hn hread
      · exact (min_allowance_of_empty hn (hlength ▸ hempty)).symm
      · rw [List.length_singleton]
        omega
    · have hchunk : chunk ≠ [] := List.length_pos_iff.mp hpos
      have hle : chunk.length ≤ n := by
        have := granted_le schedule n
        omega
      obtain ⟨reads, missing, hreads, hreceived, hcount, hshort⟩ :=
        ih (n - chunk.length) (by omega) (position + chunk.length) schedule.tail (calls ++ [n])
      rw [← Nat.sub_sub] at hcount hshort
      refine ⟨(n, chunk) :: reads, missing, ?_, ?_, ?_, ?_⟩
      · have hafter : sourceAfter data position schedule calls ((n, chunk) :: reads) =
            sourceAfter data (position + chunk.length) schedule.tail (calls ++ [n]) reads := by
          simp [sourceAfter, Nat.add_assoc]
        exact hafter ▸ .portion hchunk hle hread hreads
      · rw [received_cons, ← List.prefix_iff_eq_append.mp hprefix, List.drop_drop]
        exact (List.prefix_append_right_inj chunk).mpr hreceived
      · rw [received_cons, List.length_append, Nat.cast_add, hcount,
          min_allowance_of_portion hlength hpos]
      · have hend : schedule.length = 0 → granted schedule n = n := by
          intro h
          rw [List.length_eq_zero_iff.mp h, granted]
        rw [List.length_tail] at hshort
        rw [List.length_cons]
        omega

lemma readExactly_of_grants (hgrants : Grants schedule) (data : Bytes) (position : ℕ)
    (calls : List ℕ) (n : ℤ) :
    ∃ s c, (source data position schedule calls).readExactly n =
      ⟨if n ≤ (min n.toNat (data.length - position) : ℕ) then
          .ok ((data.drop position).take n.toNat)
        else .error (truncatedStream n (min n.toNat (data.length - position) : ℕ)).limited,
        .source data (position + min n.toNat (data.length - position)) s c⟩ := by
  obtain ⟨reads, missing, hreads, hfirst, hcount, -⟩ :=
    exists_reads_source data position schedule calls n.toNat
  rw [hgrants.allowance_eq_top, min_top_right, Nat.cast_inj] at hcount
  rw [hreads.readExactly hfirst, sourceAfter, hcount]
  exact ⟨_, _, rfl⟩

/-- Reading from a source asks for all that has not been received yet, read after read, until the
request is filled or a read finds nothing. What has been received then is the start of the data: as
much of it as was asked for, as there is and as the schedule grants before it grants nothing. If
that is the whole request it is the answer, and otherwise the request is refused with both numbers,
as far as the first can be shown. Where every portion is granted, the portions do not matter. -/
theorem readExactly_source (data : Bytes) (position : ℕ) (schedule : List (Option ℕ))
    (calls : List ℕ) (n : ℤ) :
    (∃ (reads : List (ℕ × Bytes)) (missing k : ℕ) (last : Device),
      Reads (.source data position schedule calls) n.toNat reads last missing ∧
      last = .source data (position + k) (schedule.drop reads.length)
        (calls ++ reads.map Prod.fst) ∧
      (∀ i (hi : i < reads.length),
        (reads[i].1 : ℤ) = n - (received (reads.take i)).length) ∧
      (reads.map Prod.fst).Pairwise (· > ·) ∧ (∀ r ∈ reads, 0 < r.1) ∧
      (n ≤ 0 → reads = []) ∧ reads.length ≤ schedule.length + 2 ∧
      k = (received reads).length ∧
      (k : ℕ∞) = min ((min n.toNat (data.length - position) : ℕ) : ℕ∞) (allowance schedule) ∧
      (n ≤ k ↔ ∀ r ∈ reads, r.2 ≠ []) ∧
      (n ≤ k → k = n.toNat ∧ (source data position schedule calls).readExactly n =
        ⟨.ok ((data.drop position).take n.toNat), last⟩) ∧
      (k < n → Numeral.Showable n → (source data position schedule calls).readExactly n =
        ⟨.error (.truncatedStream n k), last⟩) ∧
      (k < n → ¬Numeral.Showable n → (source data position schedule calls).readExactly n =
        ⟨.error (.unshowable none), last⟩)) ∧
    ∀ schedule' calls', Grants schedule → Grants schedule' →
      ∃ outcome k s s' c c', (source data position schedule calls).readExactly n =
          ⟨outcome, .source data (position + k) s c⟩ ∧
        (source data position schedule' calls').readExactly n =
          ⟨outcome, .source data (position + k) s' c'⟩ := by
  refine ⟨?_, fun schedule' calls' hgrants hgrants' => ?_⟩
  · obtain ⟨reads, missing, hreads, hfirst, hcount, hshort⟩ :=
      exists_reads_source data position schedule calls n.toNat
    have hlength := hreads.length_received
    have hanswer := hreads.readExactly hfirst
    refine ⟨reads, missing, _, _, hreads, rfl, fun i hi => ?_, hreads.decreasing,
      fun r hr => (hreads.bounds r hr).1, fun hn => ?_, by omega, rfl, hcount, ?_,
      fun hk => ?_, fun hk hn => ?_, fun hk hn => ?_⟩
    · have hpos := (hreads.bounds _ (List.getElem_mem hi)).1
      have hasked := hreads.asked i hi
      omega
    · rw [List.eq_nil_iff_forall_not_mem]
      intro r hr
      have := hreads.bounds r hr
      omega
    · rw [← hreads.missing_eq_zero_iff]
      omega
    · exact ⟨by omega, by rw [hanswer, if_pos hk]⟩
    · rw [hanswer, if_neg (Int.not_le.mpr hk), (limited_truncatedStream hk).1 hn]
    · rw [hanswer, if_neg (Int.not_le.mpr hk), (limited_truncatedStream hk).2 hn]
  · obtain ⟨s, c, hread⟩ := readExactly_of_grants hgrants data position calls n
    obtain ⟨s', c', hread'⟩ := readExactly_of_grants hgrants' data position calls' n
    exact ⟨_, _, s, s', c, c', hread, hread'⟩

/-- A source that grants one byte and then none, one that has no byte for a request that no message
can show, and one whose data arrives in portions of two and in portions of one and five. -/
theorem readExactly_source_stalled :
    (∃ last, (source [6, 7, 8, 9] 1 [some 1, none] []).readExactly 3 =
      ⟨.error (.truncatedStream 3 1), last⟩) ∧
    (∃ last, (source [] 0 [] []).readExactly Numeral.unshowable =
      ⟨.error (.unshowable none), last⟩) ∧
    ∃ outcome k s s' c c', (source [6, 7, 8, 9] 1 [some 2] []).readExactly 3 =
        ⟨outcome, .source [6, 7, 8, 9] (1 + k) s c⟩ ∧
      (source [6, 7, 8, 9] 1 [some 1, some 5] []).readExactly 3 =
        ⟨outcome, .source [6, 7, 8, 9] (1 + k) s' c'⟩ := by
  refine ⟨?_, ?_, ?_⟩
  · obtain ⟨⟨_, _, k, last, -, -, -, -, -, -, -, -, hcount, -, -, hrefused, -⟩, -⟩ :=
      readExactly_source [6, 7, 8, 9] 1 [some 1, none] [] 3
    obtain rfl : k = 1 := by simpa [allowance] using hcount
    exact ⟨last, hrefused (by decide) (Numeral.showable_of_lt (by decide))⟩
  · obtain ⟨⟨_, _, k, last, -, -, -, -, -, -, -, -, hcount, -, -, -, hrefused⟩, -⟩ :=
      readExactly_source [] 0 [] [] Numeral.unshowable
    obtain rfl : k = 0 := by simpa using hcount
    have hpos : (0 : ℤ) < Numeral.unshowable :=
      (show (0 : ℤ) < 10 ^ 0 by decide).trans_le (Numeral.pow_le_unshowable (Nat.zero_le _))
    exact ⟨last, hrefused hpos Numeral.not_showable_unshowable⟩
  · obtain ⟨-, hsame⟩ := readExactly_source [6, 7, 8, 9] 1 [some 2] [] 3
    have hgrants : ∀ ks : List ℕ, (∀ k ∈ ks, 0 < k) → Grants (ks.map some) := by
      intro ks hks g hg
      obtain ⟨k, hk, rfl⟩ := List.mem_map.mp hg
      exact ⟨k, rfl, hks k hk⟩
    exact hsame [some 1, some 5] [] (hgrants [2] (by decide)) (hgrants [1, 5] (by decide))

end Source

/-! ## Writing -/

/-- Data that is offered in portions. Each write is offered all that is left, until nothing is or a
write takes nothing: what each write was offered and how much it took, the device after them, and
what is left in the end. -/
inductive Offers [Host] : Device → Bytes → List (Bytes × ℕ) → Device → Bytes → Prop where
  | finished (d : Device) : Offers d [] [] d []
  | stalled {d d' : Device} {rest : Bytes} : rest ≠ [] → d.write rest = ⟨.ok 0, d'⟩ →
      Offers d rest [(rest, 0)] d' rest
  | portion {d d' last : Device} {n : ℕ} {rest left : Bytes} {offers : List (Bytes × ℕ)} :
      0 < n → n ≤ rest.length → d.write rest = ⟨.ok n, d'⟩ →
      Offers d' (rest.drop n) offers last left → Offers d rest ((rest, n) :: offers) last left

def accepted (offers : List (Bytes × ℕ)) : ℕ := (offers.map Prod.snd).sum

@[simp] lemma accepted_nil : accepted [] = 0 := rfl

@[simp] lemma accepted_cons (chunk : Bytes) (n : ℕ) (offers : List (Bytes × ℕ)) :
    accepted ((chunk, n) :: offers) = n + accepted offers := List.sum_cons

namespace Offers

variable [Host] {d last : Device} {data left : Bytes} {offers : List (Bytes × ℕ)}

lemma left_eq_drop (h : Offers d data offers last left) : left = data.drop (accepted offers) := by
  induction h with
  | finished | stalled => rfl
  | portion _ _ _ _ ih => rw [accepted_cons, ← List.drop_drop, ih]

lemma accepted_le (h : Offers d data offers last left) : accepted offers ≤ data.length := by
  induction h with
  | finished | stalled => exact Nat.zero_le _
  | portion _ hle _ _ ih =>
    rw [List.length_drop] at ih
    rw [accepted_cons]
    omega

/-- Each write is offered what has not been taken yet. -/
lemma offered (h : Offers d data offers last left) (i : ℕ) (hi : i < offers.length) :
    offers[i].1 = data.drop (accepted (offers.take i)) := by
  induction h generalizing i with
  | finished => exact absurd hi (Nat.not_lt_zero i)
  | stalled =>
    obtain rfl : i = 0 := Nat.lt_one_iff.mp hi
    rfl
  | portion _ _ _ _ ih =>
    cases i with
    | zero => rfl
    | succ i =>
      rw [List.getElem_cons_succ, ih i (Nat.lt_of_succ_lt_succ hi), List.take_succ_cons,
        accepted_cons, List.drop_drop]

lemma ne_nil (h : Offers d data offers last left) : ∀ o ∈ offers, o.1 ≠ [] := by
  induction h with
  | finished => exact List.forall_mem_nil _
  | stalled hne _ => exact List.forall_mem_singleton.mpr hne
  | portion hpos hle _ _ ih =>
    exact List.forall_mem_cons.mpr ⟨List.length_pos_iff.mp (hpos.trans_le hle), ih⟩

lemma eq_nil (h : Offers d [] offers last left) : offers = [] := by
  cases h with
  | finished => rfl
  | stalled hne _ => exact absurd rfl hne
  | portion hpos hle _ _ => exact absurd hle (Nat.not_le.mpr hpos)

lemma left_eq_nil_iff (h : Offers d data offers last left) : left = [] ↔ ∀ o ∈ offers, 0 < o.2 := by
  induction h with
  | finished => exact iff_of_true rfl (List.forall_mem_nil _)
  | stalled hne _ =>
    exact iff_of_false hne fun hall => Nat.lt_irrefl 0 (hall _ List.mem_cons_self)
  | portion hpos _ _ _ ih =>
    rw [ih, List.forall_mem_cons]
    exact (and_iff_right hpos).symm

/-- Writing is making these offers: it fails just when something is left. -/
theorem writeRemaining (h : Offers d data offers last left) (total : ℕ) :
    d.writeRemaining total data =
      ⟨if left = [] then .ok () else .error (.truncatedStream total (total - left.length : ℕ)),
        last⟩ := by
  induction h with
  | finished =>
    rw [Device.writeRemaining]
    rfl
  | stalled hne hwrite =>
    rw [Device.writeRemaining, dif_neg hne, if_neg hne]
    simp only [hwrite]
    rfl
  | portion hpos hle hwrite _ ih =>
    have hne := List.length_pos_iff.mp (hpos.trans_le hle)
    rw [Device.writeRemaining, dif_neg hne]
    simp only [hwrite, if_neg hpos.ne', ih]

/-- All of the data is written, or the writing is refused with what was taken. -/
theorem writeAll (h : Offers d data offers last left) :
    d.writeAll data =
      ⟨if accepted offers = data.length then .ok data.length
        else .error (.truncatedStream data.length (accepted offers)), last⟩ := by
  have hle := h.accepted_le
  have hlength : left.length = data.length - accepted offers := by
    rw [h.left_eq_drop, List.length_drop]
  rw [Device.writeAll, h.writeRemaining, Attempt.map]
  by_cases hall : accepted offers = data.length
  · rw [if_pos (List.length_eq_zero_iff.mp (by omega)), if_pos hall]
    rfl
  · have hsome : left ≠ [] := List.length_pos_iff.mp (by omega)
    have htaken : data.length - left.length = accepted offers := by omega
    rw [if_neg hsome, if_neg hall, htaken]
    rfl

end Offers

/-- The state of a sink after some writes. -/
def sinkAfter (old data : Bytes) (schedule : List (Option ℕ)) (calls : List ℕ)
    (offers : List (Bytes × ℕ)) : Device :=
  .sink (old ++ data.take (accepted offers)) (schedule.drop offers.length)
    (calls ++ offers.map fun o => o.1.length)

/-- A sink is written to until it has all of the data or the schedule grants nothing, and behind
the schedule one write is enough for all that is left. -/
lemma exists_offers_sink [Host] (old data : Bytes) (schedule : List (Option ℕ)) (calls : List ℕ) :
    ∃ offers left, Offers (.sink old schedule calls) data offers
        (sinkAfter old data schedule calls offers) left ∧
      (accepted offers : ℕ∞) = min (data.length : ℕ∞) (allowance schedule) ∧
      offers.length ≤ schedule.length + min data.length 1 := by
  -- The induction is on how much is left, which a write that takes something makes less.
  induction hn : data.length using Nat.strong_induction_on
    generalizing old data schedule calls with
  | _ n ih =>
    subst hn
    by_cases hdata : data = []
    · subst hdata
      have hself : sinkAfter old [] schedule calls [] = .sink old schedule calls := by
        simp [sinkAfter]
      exact ⟨[], [], hself ▸ .finished _, by simp, Nat.zero_le _⟩
    have hpos := List.length_pos_iff.mpr hdata
    let amount := granted schedule data.length
    have hwrite : (sink old schedule calls).write data = ⟨.ok amount,
        .sink (old ++ data.take amount) schedule.tail (calls ++ [data.length])⟩ := rfl
    have hle : amount ≤ data.length := granted_le _ _
    have hamount : amount = min (granted schedule data.length) data.length :=
      (min_eq_left hle).symm
    obtain hnone | hsome := Nat.eq_zero_or_pos amount
    · rw [hnone] at hwrite
      refine ⟨[(data, 0)], data, ?_, ?_, ?_⟩
      · have hafter : sinkAfter old data schedule calls [(data, 0)] =
            .sink (old ++ data.take 0) schedule.tail (calls ++ [data.length]) := by
          simp [sinkAfter]
        exact hafter ▸ .stalled hdata hwrite
      · have hempty := min_allowance_of_empty hpos (hamount ▸ hnone)
        rw [min_self data.length] at hempty
        exact hempty.symm
      · rw [List.length_singleton]
        omega
    · obtain ⟨offers, left, hoffers, hcount, hshort⟩ :=
        ih (data.drop amount).length (by rw [List.length_drop]; omega) (old ++ data.take amount)
          (data.drop amount) schedule.tail (calls ++ [data.length]) rfl
      refine ⟨(data, amount) :: offers, left, ?_, ?_, ?_⟩
      · have hafter : sinkAfter old data schedule calls ((data, amount) :: offers) =
            sinkAfter (old ++ data.take amount) (data.drop amount) schedule.tail
              (calls ++ [data.length]) offers := by
          simp [sinkAfter, List.take_add]
        exact hafter ▸ .portion hsome hle hwrite hoffers
      · have hstep := min_allowance_of_portion hamount hsome
        rw [min_self data.length, min_self (data.length - amount)] at hstep
        rw [accepted_cons, Nat.cast_add, hcount, List.length_drop, hstep]
      · have hend : schedule.length = 0 → amount = data.length := by
          intro h
          simp only [amount, List.length_eq_zero_iff.mp h, granted]
        rw [List.length_tail, List.length_drop] at hshort
        rw [List.length_cons]
        omega

/-- Writing to a sink offers all that has not been taken yet, write after write, until nothing is
left or a write takes nothing. What the sink has then, behind what it had, is the start of the data:
as much of it as there is and as the schedule grants before it grants nothing. If that is all of it,
its length is the answer, and otherwise the writing is refused with both numbers. -/
theorem writeAll_sink [Host] (old data : Bytes) (schedule : List (Option ℕ)) (calls : List ℕ) :
    ∃ (offers : List (Bytes × ℕ)) (left : Bytes) (k : ℕ) (last : Device),
      Offers (.sink old schedule calls) data offers last left ∧
      last = .sink (old ++ data.take k) (schedule.drop offers.length)
        (calls ++ offers.map fun o => o.1.length) ∧
      (∀ i (hi : i < offers.length), offers[i].1 = data.drop (accepted (offers.take i))) ∧
      (∀ o ∈ offers, o.1 ≠ []) ∧ (data = [] → offers = []) ∧
      offers.length ≤ schedule.length + 1 ∧
      k = accepted offers ∧ k ≤ data.length ∧
      (k : ℕ∞) = min (data.length : ℕ∞) (allowance schedule) ∧
      (k = data.length ↔ ∀ o ∈ offers, 0 < o.2) ∧
      (k = data.length → (sink old schedule calls).writeAll data = ⟨.ok data.length, last⟩) ∧
      (k < data.length → (sink old schedule calls).writeAll data =
        ⟨.error (.truncatedStream data.length k), last⟩) := by
  obtain ⟨offers, left, hoffers, hcount, hshort⟩ := exists_offers_sink old data schedule calls
  have hle := hoffers.accepted_le
  have hanswer := hoffers.writeAll
  refine ⟨offers, left, _, _, hoffers, rfl, hoffers.offered, hoffers.ne_nil,
    fun hdata => Offers.eq_nil (hdata ▸ hoffers), by omega, rfl, hle, hcount, ?_, fun hall => ?_,
    fun hsome => ?_⟩
  · rw [← hoffers.left_eq_nil_iff, hoffers.left_eq_drop, List.drop_eq_nil_iff]
    omega
  · rw [hanswer, if_pos hall]
  · rw [hanswer, if_neg hsome.ne]

/-- A sink that takes two bytes and then none. -/
example : (sink [9] [some 2, none, some 1] []).writeAll [1, 2, 3] =
    ⟨.error (.truncatedStream 3 2), .sink [9, 1, 2] [some 1] [3, 1]⟩ := by
  cbv

end Device

end BinaryLayout
