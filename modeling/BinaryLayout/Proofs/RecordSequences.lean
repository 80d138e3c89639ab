import BinaryLayout.Proofs.RecordStreams
import BinaryLayout.Proofs.SizeBounds

/-!
# Records one behind the other

Data that is a whole number of records is cut at the multiples of their size, and each part is
unpacked by itself. So what is in one record does not matter for the others, a record that cannot
be unpacked ends the reading without taking back what came before it, and reading a stream of the
same data record by record gives the same. Data that is no whole number of records is refused as a
whole.
-/
namespace BinaryLayout

open Fault

/-! ## Parts of the same size -/

namespace Bytes

/-- The parts between the multiples of a size, the last of which may come before the end. -/
def parts (size : ℕ) (data : Bytes) : List Bytes :=
  (List.range (data.length / size)).map fun (k : ℕ) => data.slice (k * size) ((k + 1) * size)

variable {size : ℕ} {data : Bytes} {raws : List Bytes}

lemma mul_add_le_of_lt_div {k n : ℕ} (hk : k < n / size) : k * size + size ≤ n := by
  rw [← Nat.succ_mul]
  exact (Nat.mul_le_mul_right size hk).trans (Nat.div_mul_le_self n size)

lemma parts_eq (size : ℕ) (data : Bytes) :
    data.parts size =
      (List.range (data.length / size)).map fun k => (data.drop (k * size)).take size := by
  rw [parts]
  refine List.map_congr_left fun k hk => ?_
  have hslice := slice_of_le (Nat.le_add_right (k * size) size)
    (mul_add_le_of_lt_div (List.mem_range.mp hk))
  rw [Nat.add_sub_cancel_left] at hslice
  rw [← hslice, Int.add_mul, Int.one_mul]
  push_cast
  rfl

lemma length_of_mem_parts {raw : Bytes} (h : raw ∈ data.parts size) : raw.length = size := by
  rw [parts_eq] at h
  obtain ⟨k, hk, rfl⟩ := List.mem_map.mp h
  have hend := mul_add_le_of_lt_div (List.mem_range.mp hk)
  rw [List.length_take, List.length_drop]
  omega

lemma parts_nil (size : ℕ) : parts size [] = [] := by
  rw [parts, List.length_nil, Nat.zero_div, List.range_zero, List.map_nil]

lemma parts_append (hs : 0 < size) {raw : Bytes} (h : raw.length = size) (rest : Bytes) :
    parts size (raw ++ rest) = raw :: parts size rest := by
  rw [parts_eq, parts_eq, List.length_append, h, Nat.add_div_left _ hs, List.range_succ_eq_map,
    List.map_cons, List.map_map, Nat.zero_mul, List.drop_zero, ← h, List.take_left]
  congr 1
  -- Without the first part, each of the others begins earlier by a size.
  refine List.map_congr_left fun k _ => ?_
  rw [Function.comp, Nat.succ_mul, Nat.add_comm, ← List.drop_drop, List.drop_left]

theorem parts_flatten (hs : 0 < size) (h : ∀ raw ∈ raws, raw.length = size) :
    parts size raws.flatten = raws := by
  induction raws with
  | nil => exact parts_nil size
  | cons raw raws ih =>
    obtain ⟨hraw, hraws⟩ := List.forall_mem_cons.mp h
    rw [List.flatten_cons, parts_append hs hraw, ih hraws]

lemma dvd_length_flatten (h : ∀ raw ∈ raws, raw.length = size) : size ∣ raws.flatten.length := by
  induction raws with
  | nil => exact Nat.dvd_zero size
  | cons raw raws ih =>
    obtain ⟨hraw, hraws⟩ := List.forall_mem_cons.mp h
    rw [List.flatten_cons, List.length_append, hraw]
    exact Nat.dvd_add (Nat.dvd_refl size) (ih hraws)

end Bytes

/-! ## Records up to a fault -/

/-- What is read of outcomes one after the other: all of their records, or the ones before the
first fault and this fault. -/
inductive Records.Of : List (Except Fault (List Value)) → Records → Prop where
  | all (rows : List (List Value)) : Of (rows.map .ok) ⟨rows, none⟩
  | ended (rows : List (List Value)) (fault : Fault) (later : List (Except Fault (List Value))) :
      Of (rows.map .ok ++ .error fault :: later) ⟨rows, some fault⟩

lemma Records.Of.cons {outcomes : List (Except Fault (List Value))} {r : Records}
    (h : Of outcomes r) (row : List Value) :
    Of (.ok row :: outcomes) ⟨row :: r.records, r.fault?⟩ := by
  cases h with
  | all rows => exact .all (row :: rows)
  | ended rows fault later => exact .ended (row :: rows) fault later

lemma Records.Of.mem {outcomes : List (Except Fault (List Value))} {r : Records}
    (h : Of outcomes r) {fault : Fault} (hfault : r.fault? = some fault) :
    .error fault ∈ outcomes := by
  cases h with
  | all => cases hfault
  | ended =>
    cases hfault
    exact List.mem_append_right _ List.mem_cons_self

namespace Format

variable {v : Value} {f : Format} {size : ℕ}

lemma unpackChunks_of (f : Format) (chunks : List Bytes) :
    Records.Of (chunks.map f.unpack) (f.unpackChunks chunks) := by
  -- A fault at the first part ends the reading, a record there comes before all that is read later.
  induction chunks with
  | nil => exact .all []
  | cons chunk rest ih =>
    rw [List.map_cons, unpackChunks]
    cases f.unpack chunk with
    | error fault => exact .ended [] fault _
    | ok row => exact ih.cons row

/-- Data is cut when it is a whole number of records, and refused otherwise. -/
lemma chunks_eq (hsize : f.size = .ok (size : ℤ)) (hs : 0 < size) (data : Bytes) :
    f.chunks data =
      if size ∣ data.length then .ok (data.parts size)
      else .error (Fault.bufferTooSmall ((data.length - data.length % size : ℕ) : ℤ) size
        data.length).limited := by
  have hmod : (data.length : ℤ).fmod size = (data.length % size : ℕ) :=
    (Int.fmod_eq_emod_of_nonneg _ (Int.natCast_nonneg size)).trans (Int.natCast_mod _ _).symm
  have hle := Nat.mod_le data.length size
  simp only [chunks, hsize, bind, Except.bind, pure, Except.pure, hmod, Int.toNat_natCast,
    Bytes.parts, Int.add_mul, Int.one_mul]
  rw [if_neg (by omega), Nat.cast_sub hle]
  by_cases hdvd : size ∣ data.length
  · rw [if_pos hdvd, if_neg (by omega)]
  · rw [if_neg hdvd, if_pos (by omega)]

/-- A part of the size of a record is unpacked unless a string in it has no text. -/
lemma unpack_eq_error {raw : Bytes} (hf : f.WellFormed) (hsize : f.size = .ok (size : ℤ))
    (hraw : raw.length = size) {fault : Fault} (h : f.unpack raw = .error fault) :
    ∃ t utf8, fault = .invalidUtf8 t utf8 := by
  obtain ⟨ps, stop, hw, hc⟩ := hf.exists_chain 0
  obtain rfl : (size : ℤ) = stop := Except.ok.inj (hsize.symm.trans (size_of_walk hw hc))
  -- All tokens are inside a part of this size, so its bounds are no reason to refuse it.
  obtain ⟨-, p, -, utf8, -, -, -, -, hfault⟩ :=
    (unpackFrom_of_inside hw hc (hc.inside (le_refl 0) (by omega))).2 fault h
  exact ⟨_, utf8, hfault⟩

/-- Records that are packed one behind the other are read as each of them is unpacked. -/
lemma unpackAll_flatten [Host] (hv : Describes v f) (hsize : f.size = .ok (size : ℤ))
    (hs : 0 < size) {raws : List Bytes} (h : ∀ raw ∈ raws, ∃ values, Packs (v, values) raw) :
    Records.Of (raws.map f.unpack) (f.unpackAll raws.flatten) := by
  have hraws : ∀ raw ∈ raws, raw.length = size := by
    intro raw hraw
    obtain ⟨values, g, record, hg, hpack, rfl⟩ := h raw hraw
    obtain rfl : f = g := Except.ok.inj (hv.formatOf.symm.trans hg.formatOf)
    have hlength := (size_of_pack hg.wellFormed hpack).1
    exact Int.ofNat.inj (Except.ok.inj (hlength.symm.trans hsize))
  rw [unpackAll, chunks_eq hsize hs, if_pos (Bytes.dvd_length_flatten hraws),
    Bytes.parts_flatten hs hraws]
  exact f.unpackChunks_of raws

end Format

/-- Reading the records of a buffer is reading them as the descriptor says. -/
lemma Session.run_unpackAll {v : Value} {f : Format} (hv : Describes v f) {s : Session}
    (hs : s.Sound) (b : Buffer) :
    ((unpackAll v (.buffer b)).run s).1 = f.unpackAll b.data := by
  obtain ⟨hf, -⟩ := run_formatOf hs v
  rw [hv.formatOf] at hf
  have hsource := run_bind (format v) (fun f => report f.size >>= fun _ =>
    report (buffer (.buffer b)) >>= fun b => pure (f, b.data)) s
  change (recordSource v (.buffer b)).run.run s = _ at hsource
  simp only [unpackAll, StateT.run_bind, hsource]
  generalize (format v).run.run s = r at *
  obtain ⟨outcome, s'⟩ := r
  obtain rfl : outcome = .ok f := hf
  obtain ⟨ps, stop, hw, hc⟩ := hv.wellFormed.exists_chain 0
  have hreport : (report f.size).run.run s' = (.ok stop, s') := by
    rw [Format.size_of_walk hw hc]
    rfl
  simp only [run_bind, hreport]
  rfl

/-! ## Records of a stream -/

namespace Connection

open Device

variable {c : Connection} {medium : Medium} {v : Value} {f : Format} {size position count : ℕ}
  {data : Bytes}

/-- Reading records of a stream gives what unpacking each part of the data gives. -/
lemma run_each_readPacked_parts [Host] (hv : Describes v f) (hsize : f.size = .ok (size : ℤ))
    (hpos : 0 < size) (hlarge : (data.length : ℤ) ≤ greatestSize)
    (hs : c.workspace.session.Sound) (hg : Gives medium c.stream.device data position)
    (hin : position + size * count ≤ data.length) :
    ∃ s d, (each readPacked (List.replicate count v)).run c =
        ((Bytes.parts size ((data.drop position).take (size * count))).map f.unpack, c.moved s d) ∧
      Gives medium d data (position + size * count) := by
  -- The stream is behind the first record when the others are read, so this is for any position.
  induction count generalizing c position with
  | zero =>
    rw [Nat.mul_zero, List.take_zero, Bytes.parts_nil]
    exact ⟨_, _, rfl, hg⟩
  | succ count ih =>
    rw [Nat.mul_succ, Nat.add_comm _ size] at hin ⊢
    obtain ⟨s, d, hfirst, hs', hg'⟩ := run_readPacked hv hsize (by omega) hs hg (by omega)
    obtain ⟨s', d', hothers, hgives⟩ := ih (c := c.moved s d) hs' hg' (by omega)
    have hraw : ((data.drop position).take size).length = size := by
      rw [List.length_take, List.length_drop]
      omega
    rw [← Nat.add_assoc, List.take_add, List.drop_drop, Bytes.parts_append hpos hraw,
      List.map_cons, List.replicate_succ, run_each_cons, hfirst, hothers]
    exact ⟨s', d', rfl, hgives⟩

end Connection

namespace Session

/-- Reading the records of data is unpacking its parts, each by itself. Data that is no whole number
of records is refused before anything is read, as far as the message can show the numbers. From all
other data come the records of its parts, in order, up to the first one that cannot be unpacked, and
that is one with a string without a text. Reading the same data from a stream, record by record,
gives what unpacking the parts gives. So records that are packed one behind the other are read as
each of them is unpacked. -/
theorem unpackAll_parts [Host] {v : Value} {f : Format} (hv : Describes v f) :
    ∃ size : ℕ, f.size = .ok (size : ℤ) ∧
      (∀ (s : Session) (b : Buffer), s.Sound →
        ((unpackAll v (.buffer b)).run s).1 = f.unpackAll b.data) ∧
      (0 < size → ∀ data : Bytes,
        (¬size ∣ data.length → ∀ offset : ℕ, offset = data.length - data.length % size →
          (Numeral.Showable offset ∧ Numeral.Showable size →
            f.unpackAll data = ⟨[], some (.bufferTooSmall offset size data.length)⟩) ∧
          (¬(Numeral.Showable offset ∧ Numeral.Showable size) →
            f.unpackAll data = ⟨[], some (.unshowable none)⟩)) ∧
        (size ∣ data.length →
          (data.parts size).length = data.length / size ∧
          Records.Of ((data.parts size).map f.unpack) (f.unpackAll data) ∧
          (∀ fault, (f.unpackAll data).fault? = some fault →
            ∃ raw utf8, fault = .invalidUtf8 raw utf8) ∧
          ∀ (c : Connection) medium, c.workspace.session.Sound →
            Device.Gives medium c.stream.device data 0 → (data.length : ℤ) ≤ greatestSize →
            ∃ s d, (Connection.each Connection.readPacked
                (List.replicate (data.length / size) v)).run c =
                  ((data.parts size).map f.unpack, c.moved s d) ∧
              Device.Gives medium d data data.length)) ∧
      (0 < size → ∀ raws : List Bytes, (∀ raw ∈ raws, ∃ values, Packs (v, values) raw) →
        Records.Of (raws.map f.unpack) (f.unpackAll raws.flatten)) := by
  have hwell := hv.wellFormed
  obtain ⟨size, hsize⟩ : ∃ size : ℕ, f.size = .ok (size : ℤ) := by
    obtain ⟨ps, stop, hw, hc⟩ := hwell.exists_chain 0
    obtain ⟨size, rfl⟩ := Int.eq_ofNat_of_zero_le hc.start_le_stop
    exact ⟨size, Format.size_of_walk hw hc⟩
  refine ⟨size, hsize, fun s b hs => run_unpackAll hv hs b, fun hpos data => ⟨?_, ?_⟩,
    fun hpos raws => Format.unpackAll_flatten hv hsize hpos⟩
  · rintro hdvd offset rfl
    have hrefused := Format.chunks_eq hsize hpos data
    rw [if_neg hdvd] at hrefused
    simp only [Format.unpackAll, hrefused]
    refine ⟨fun hshow => ?_, fun hshow => ?_⟩
    · rw [limited_bufferTooSmall hshow]
    · rw [limited_bufferTooSmall_of_not hshow]
  · intro hdvd
    have hof : Records.Of ((data.parts size).map f.unpack) (f.unpackAll data) := by
      rw [Format.unpackAll, Format.chunks_eq hsize hpos, if_pos hdvd]
      exact f.unpackChunks_of _
    refine ⟨by rw [Bytes.parts, List.length_map, List.length_range], hof, fun fault hfault => ?_,
      fun c medium hs hg hlarge => ?_⟩
    · obtain ⟨raw, hraw, hunpack⟩ := List.mem_map.mp (hof.mem hfault)
      exact Format.unpack_eq_error hwell hsize (Bytes.length_of_mem_parts hraw) hunpack
    · have hwhole : size * (data.length / size) = data.length := Nat.mul_div_cancel' hdvd
      have hin : 0 + size * (data.length / size) ≤ data.length := by omega
      have hread := Connection.run_each_readPacked_parts hv hsize hpos hlarge hs hg hin
      rwa [hwhole, Nat.zero_add, List.drop_zero, List.take_length] at hread

/-- Records of five bytes with a number that is aligned to four. Records among which one is no
text. And a record whose size has a digit more than its count: no message can name the size, so
reading is refused for that. -/
theorem unpackAll_parts_packed :
    (∃ f, Descriptor.compile "@ib" = .ok f ∧ f.size = .ok 5 ∧
      Records.Of [.ok [.int 1, .int 2], .ok [.int 3, .int 4]]
        (f.unpackAll [1, 0, 0, 0, 2, 3, 0, 0, 0, 4]) ∧
      f.unpackAll [1, 0, 0, 0, 2, 3] = ⟨[], some (.bufferTooSmall 5 5 6)⟩ ∧
      ∃ c, (Connection.each Connection.readPacked [.text "@ib", .text "@ib"]).run
          ⟨⟨.empty, ⟨[], false⟩⟩, ⟨.memory (.ofBytes [1, 0, 0, 0, 2, 3, 0, 0, 0, 4] 0), false⟩⟩ =
        ([.ok [.int 1, .int 2], .ok [.int 3, .int 4]], c)) ∧
    (∃ f, Descriptor.compile "<2s" = .ok f ∧
      Records.Of [.ok [.text "AB"], .error (.invalidUtf8 [0xFF, 0x41] ⟨0, 1, 0xFF, .invalidStart⟩),
        .ok [.text "CD"]] (f.unpackAll [0x41, 0x42, 0xFF, 0x41, 0x43, 0x44])) ∧
    ∃ f, Descriptor.compile (Format.manyNines ++ [CodePoint.ofChar 'q']) = .ok f ∧
      f.unpackAll [0] = ⟨[], some (.unshowable none)⟩ := by
  refine ⟨?_, ?_, ?_⟩
  · have hd : Descriptor.compile "@ib" =
        .ok ⟨.nativeAligned, [⟨1, .known .int32⟩, ⟨1, .known .int8⟩], "@ib"⟩ := by cbv
    obtain ⟨size, hsize, -, hdata, hpacked⟩ := unpackAll_parts (.text hd)
    obtain rfl : size = 5 := Int.ofNat.inj (Except.ok.inj (hsize.symm.trans (by rfl)))
    have hraws : ∀ raw ∈ ([[1, 0, 0, 0, 2], [3, 0, 0, 0, 4]] : List Bytes),
        ∃ values, Packs (.text "@ib", values) raw :=
      List.forall_mem_cons.mpr
        ⟨⟨[.int 1, .int 2], _, ⟨[1, 0, 0, 0, 2], 0, 2⟩, .text hd, by cbv, rfl⟩,
          List.forall_mem_singleton.mpr
            ⟨[.int 3, .int 4], _, ⟨[3, 0, 0, 0, 4], 0, 2⟩, .text hd, by cbv, rfl⟩⟩
    obtain ⟨hshort, -⟩ := hdata (by decide) [1, 0, 0, 0, 2, 3]
    obtain ⟨-, hwhole⟩ := hdata (by decide) [1, 0, 0, 0, 2, 3, 0, 0, 0, 4]
    obtain ⟨-, -, -, hstream⟩ := hwhole (by decide)
    obtain ⟨s, d, hrun, -⟩ := hstream
      ⟨⟨.empty, ⟨[], false⟩⟩, ⟨.memory (.ofBytes [1, 0, 0, 0, 2, 3, 0, 0, 0, 4] 0), false⟩⟩ .memory
      Session.sound_empty (.memory rfl) (by decide)
    refine ⟨_, hd, hsize, hpacked (by decide) _ hraws, ?_, _, hrun⟩
    exact (hshort (by decide) 5 rfl).1
      ⟨Numeral.showable_of_lt (by decide), Numeral.showable_of_lt (by decide)⟩
  · have hd : Descriptor.compile "<2s" = .ok ⟨.littleEndian, [⟨2, .known .string⟩], "<2s"⟩ := by cbv
    obtain ⟨size, hsize, -, hdata, -⟩ := unpackAll_parts (.text hd)
    obtain rfl : size = 2 := Int.ofNat.inj (Except.ok.inj (hsize.symm.trans (by rfl)))
    obtain ⟨-, hwhole⟩ := hdata (by decide) [0x41, 0x42, 0xFF, 0x41, 0x43, 0x44]
    obtain ⟨-, hof, -⟩ := hwhole (by decide)
    refine ⟨_, hd, ?_⟩
    convert hof using 1
    cbv
  · obtain ⟨n, hpos, hshow, hd⟩ := Format.compile_manyNines
    obtain ⟨size, hsize, -, hdata, -⟩ := unpackAll_parts (.text hd)
    have hfield : Format.size ⟨.default, [⟨n, .known .int64⟩], Format.manyNines ++
        [CodePoint.ofChar 'q']⟩ = .ok (0 + n * 8) := by rfl
    have hbytes : (size : ℤ) = n * 8 :=
      (Except.ok.inj (hsize.symm.trans hfield)).trans (Int.zero_add _)
    have hdvd : ¬size ∣ 1 := fun h => by
      have := Nat.le_of_dvd Nat.one_pos h
      omega
    refine ⟨_, hd, ((hdata (by omega) [0]).1 hdvd _ rfl).2 fun h => hshow ?_⟩
    exact hbytes ▸ h.2

end Session

end BinaryLayout
