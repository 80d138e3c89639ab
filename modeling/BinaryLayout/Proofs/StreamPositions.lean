import BinaryLayout.Proofs.RawStreams
import BinaryLayout.Proofs.Schedules

/-!
# Where a stream is left

A record that cannot be read or written leaves its stream at a place that the failure tells. Nothing
is read before the descriptor is known to be valid, and then as much as the record is large, unless
there is less; so a failure to unpack leaves the stream behind the record, and a failure to fill the
request behind all that there was. Nothing is written before the record is packed, and then its
start is, all of it just if the writing succeeds.
-/
namespace BinaryLayout

open Fault

/-! ## Files in memory -/

namespace MemoryFile

variable [Host] {m : MemoryFile} {chunk : Bytes}

/-- A write that is refused leaves the file as it was, or closes it. -/
lemma after_write_of_error {fault : Fault} (h : (m.write chunk).outcome = .error fault) :
    (m.write chunk).after = m ∨ (m.write chunk).after = { m with closed := true } := by
  obtain ⟨data, capacity, position, shared, closed⟩ := m
  cases closed with
  | true => exact .inl rfl
  | false =>
    unfold write at h ⊢
    simp only [Bool.false_eq_true, if_false] at h ⊢
    split at h
    · cases h
    split at h
    · cases h
    next hempty hroom =>
    rw [if_neg hempty, if_neg hroom]
    split
    · exact .inl rfl
    split
    · -- Storage that is shared is only copied, so the file stays open.
      cases shared with
      | true => exact .inl rfl
      | false => exact .inr rfl
    · next hlarge _ hnone =>
      rw [if_neg hlarge, hnone] at h
      cases h

end MemoryFile

namespace Device

variable [Host]

/-! ## Bytes that are read -/

/-- The bytes come next on the device, and it has been read up to their end. -/
inductive Consumed : Device → Bytes → Device → Prop where
  | memory {m : MemoryFile} {raw : Bytes} : raw <+: m.data.drop m.position →
      Consumed (.memory m) raw (.memory { m with position := m.position + raw.length })
  | source {data raw : Bytes} {position : ℕ} {schedule schedule' : List (Option ℕ)}
      {calls calls' : List ℕ} : raw <+: data.drop position →
      Consumed (.source data position schedule calls) raw
        (.source data (position + raw.length) schedule' calls')
  | nothing (d : Device) : Consumed d [] d

/-- What a device refuses to be read for. -/
inductive Unreadable : Fault → Prop where
  | closed (message : String) : Unreadable (.closedFile message)
  | tooLarge : Unreadable .sizeTooLarge
  | missing (kind operation : String) : Unreadable (.missingOperation kind operation)

/-- How a request for `n` bytes ends: with all of them, with those that there were, or with a
device that is refused and was not read at all. -/
inductive ReadEnds (d : Device) (n : ℕ) : Bytes → Attempt Device Bytes → Prop where
  | filled {raw : Bytes} {d' : Device} : Consumed d raw d' → raw.length = n →
      ReadEnds d n raw ⟨.ok raw, d'⟩
  | short {raw : Bytes} {d' : Device} : Consumed d raw d' → raw.length < n →
      ReadEnds d n raw ⟨.error (truncatedStream n raw.length).limited, d'⟩
  | refused {fault : Fault} : Unreadable fault → ReadEnds d n [] ⟨.error fault, d⟩

/-- A file in memory is read until the request is filled or the data is at its end. -/
lemma exists_reads_memory {m : MemoryFile} (ho : m.closed = false) {n : ℕ}
    (hn : (n : ℤ) ≤ greatestSize) :
    ∃ reads missing, Reads (.memory m) n reads
        (.memory { m with position := m.position + (received reads).length }) missing ∧
      received reads <+: m.data.drop m.position := by
  -- The induction is on what is missing, which a read that finds something makes less.
  induction n using Nat.strong_induction_on generalizing m with
  | _ n ih =>
    obtain rfl | hpos := Nat.eq_zero_or_pos n
    · exact ⟨[], 0, .filled _, List.nil_prefix⟩
    let chunk := (m.data.drop m.position).take n
    have hread : (memory m).read n =
        ⟨.ok (.bytes chunk), .memory { m with position := m.position + chunk.length }⟩ := by
      simp only [Device.read, MemoryFile.read, if_neg (Int.not_lt.mpr hn), ho, Bool.false_eq_true,
        if_false]
      rfl
    have hprefix : chunk <+: m.data.drop m.position := List.take_prefix _ _
    obtain hempty | hsome := Nat.eq_zero_or_pos chunk.length
    · have hnil : chunk = [] := List.length_eq_zero_iff.mp hempty
      rw [hnil] at hread
      exact ⟨[(n, [])], n, .stalled hpos hread, List.nil_prefix⟩
    · have hchunk : chunk ≠ [] := List.length_pos_iff.mp hsome
      have hle : chunk.length ≤ n := List.length_take_le _ _
      obtain ⟨reads, missing, hreads, hreceived⟩ := ih (n - chunk.length) (by omega)
        (show MemoryFile.closed { m with position := m.position + chunk.length } = false from ho)
        (by omega)
      refine ⟨(n, chunk) :: reads, missing, ?_, ?_⟩
      · rw [received_cons, List.length_append, ← Nat.add_assoc]
        exact .portion hchunk hle hread hreads
      · rw [received_cons, ← List.prefix_iff_eq_append.mp hprefix, List.drop_drop]
        exact (List.prefix_append_right_inj chunk).mpr hreceived

lemma Reads.readEnds {d d' : Device} {n missing : ℕ} {reads : List (ℕ × Bytes)}
    (h : Reads d n reads d' missing) (hc : Consumed d (received reads) d') :
    ReadEnds d n (received reads) (d.readExactly n) := by
  have hlength := h.length_received
  have hread := Reads.readExactly (n := n) h (List.prefix_refl _)
  by_cases hall : (received reads).length = n
  · rw [if_pos (by omega), Int.toNat_natCast, ← hall, List.take_length] at hread
    rw [← hall]
    exact hread ▸ .filled hc rfl
  · rw [if_neg (by omega)] at hread
    exact hread ▸ .short hc (by omega)

/-- Reading a file in memory, a source or a sink. -/
theorem exists_readEnds {d : Device} (hd : d.file? = none) (n : ℕ) :
    ∃ raw, ReadEnds d n raw (d.readExactly n) := by
  have hrefused : ∀ {fault : Fault}, 0 < n → Unreadable fault → d.read n = .refuse d fault →
      ReadEnds d n [] (d.readExactly n) := by
    intro fault hpos hfault hread
    have hexactly : d.readExactly n = ⟨.error fault, d⟩ := by
      rw [readExactly, Int.toNat_natCast, readRemaining, if_neg hpos.ne', hread]
      rfl
    exact hexactly ▸ .refused hfault
  obtain rfl | hpos := Nat.eq_zero_or_pos n
  · exact ⟨_, (Reads.filled d).readEnds (.nothing d)⟩
  cases d with
  | source data position schedule calls =>
    obtain ⟨reads, missing, hreads, hfirst, -⟩ :=
      exists_reads_source data position schedule calls n
    exact ⟨_, hreads.readEnds (.source hfirst)⟩
  | memory m =>
    by_cases hlarge : greatestSize < (n : ℤ)
    · exact ⟨_, hrefused hpos .tooLarge (by
        simp only [Device.read, MemoryFile.read, if_pos hlarge]
        rfl)⟩
    cases ho : m.closed with
    | true =>
      exact ⟨_, hrefused hpos (.closed _) (by
        simp only [Device.read, MemoryFile.read, if_neg hlarge, ho, if_true]
        rfl)⟩
    | false =>
      obtain ⟨reads, missing, hreads, hfirst⟩ := exists_reads_memory ho (Int.not_lt.mp hlarge)
      exact ⟨_, hreads.readEnds (.memory hfirst)⟩
  | sink data schedule calls => exact ⟨_, hrefused hpos (.missing _ _) rfl⟩
  | file f => cases hd
  | text t => cases hd

/-! ## Bytes that are written -/

/-- The device has taken the bytes: a file in memory at its position, a sink behind what it had. A
file that has lost its storage is closed, and has taken nothing. -/
inductive Taken : Device → Bytes → Device → Prop where
  | memory {m : MemoryFile} {raw : Bytes} : raw ≠ [] → Taken (.memory m) raw (.memory (m.put raw))
  | lost (m : MemoryFile) : Taken (.memory m) [] (.memory { m with closed := true })
  | sink {data raw : Bytes} {schedule schedule' : List (Option ℕ)} {calls calls' : List ℕ} :
      Taken (.sink data schedule calls) raw (.sink (data ++ raw) schedule' calls')
  | nothing (d : Device) : Taken d [] d

/-- How writing some data ends: with all of it taken, or refused with less than that. -/
inductive WriteEnds (d : Device) (raw : Bytes) : Bytes → Attempt Device ℕ → Prop where
  | finished {d' : Device} : Taken d raw d' → WriteEnds d raw raw ⟨.ok raw.length, d'⟩
  | short {taken : Bytes} {d' : Device} {fault : Fault} : Taken d taken d' → taken <+: raw →
      taken ≠ raw → WriteEnds d raw taken ⟨.error fault, d'⟩

/-- Writing to a file in memory, a source or a sink. -/
theorem exists_writeEnds {d : Device} (hd : d.file? = none) (raw : Bytes) :
    ∃ taken, WriteEnds d raw taken (d.writeAll raw) := by
  by_cases hr : raw = []
  · subst hr
    have hwrite : d.writeAll [] = ⟨.ok 0, d⟩ := by
      rw [writeAll, writeRemaining]
      rfl
    exact ⟨[], hwrite ▸ .finished (.nothing d)⟩
  cases d with
  | memory m =>
    by_cases hroom : m.HasRoom raw.length
    · exact ⟨raw, writeAll_of_hasRoom hr hroom ▸ .finished (.memory hr)⟩
    · obtain ⟨fault, hfault, hwrite⟩ := writeAll_of_not_hasRoom hr hroom
      have htaken : Taken (.memory m) [] (.memory (m.write raw).after) := by
        obtain hkept | hlost := MemoryFile.after_write_of_error hfault
        · rw [hkept]
          exact .nothing _
        · rw [hlost]
          exact .lost m
      exact ⟨[], hwrite ▸ .short htaken List.nil_prefix (Ne.symm hr)⟩
  | sink data schedule calls =>
    obtain ⟨offers, left, hoffers, -⟩ := exists_offers_sink data raw schedule calls
    have hle := hoffers.accepted_le
    have hwrite := hoffers.writeAll
    by_cases hall : accepted offers = raw.length
    · rw [if_pos hall, sinkAfter, hall, List.take_length] at hwrite
      exact ⟨raw, hwrite ▸ .finished .sink⟩
    · rw [if_neg hall] at hwrite
      refine ⟨raw.take (accepted offers), hwrite ▸ .short .sink (List.take_prefix _ _) ?_⟩
      intro heq
      have hlength := congrArg List.length heq
      rw [List.length_take] at hlength
      omega
  | source data position schedule calls =>
    have hrefused : (source data position schedule calls).write raw =
        .refuse (.source data position schedule calls) (.missingOperation "Reader" "write") := rfl
    exact ⟨[], writeAll_of_refused hr hrefused ▸
      .short (.nothing _) List.nil_prefix (Ne.symm hr)⟩
  | file f => cases hd
  | text t => cases hd

end Device

/-! ## Records -/

namespace Workspace

variable {w : Workspace} {d : Device} {v : Value} {f : Format}

lemma readPacked_of_error [Host] (hs : w.session.Sound) {fault : Fault}
    (h : Session.formatOf v = .error fault) (d : Device) :
    (w.readPacked (.device d) v).outcome = .error fault ∧
      (w.readPacked (.device d) v).resource = .device d := by
  obtain ⟨s, -, hrun⟩ := Connection.run_readPacked_of_error (c := ⟨w, ⟨d, false⟩⟩) hs
    (show (Session.formatOf v).bind Format.size = .error fault by rw [h, Except.bind])
  rw [readPacked, withStream_device hrun]
  exact ⟨rfl, rfl⟩

lemma readPacked_eq [Host] (hs : w.session.Sound) (hf : Session.formatOf v = .ok f) {n : ℤ}
    (hsize : f.size = .ok n) (d : Device) :
    (w.readPacked (.device d) v).outcome = (d.readExactly n).outcome.bind f.unpack ∧
      (w.readPacked (.device d) v).resource = .device (d.readExactly n).after := by
  obtain ⟨s, -, hrun⟩ := Connection.run_readPacked_eq (c := ⟨w, ⟨d, false⟩⟩) hs hf hsize
  rw [readPacked, withStream_device hrun]
  exact ⟨rfl, rfl⟩

lemma writePacked_of_error [Host] (hs : w.session.Sound) {values : List Value} {fault : Fault}
    (h : Session.packAs v values = .error fault) (d : Device) :
    (w.writePacked (.device d) v values).outcome = .error fault ∧
      (w.writePacked (.device d) v values).resource = .device d := by
  obtain ⟨s, -, hrun⟩ := Connection.run_writePacked_of_error (c := ⟨w, ⟨d, false⟩⟩) hs h
  rw [writePacked, withStream_device hrun]
  exact ⟨rfl, rfl⟩

lemma writePacked_eq [Host] (hs : w.session.Sound) {values : List Value} {raw : Bytes}
    (h : Session.packAs v values = .ok raw) (d : Device) :
    (w.writePacked (.device d) v values).outcome = (d.writeAll raw).outcome ∧
      (w.writePacked (.device d) v values).resource = .device (d.writeAll raw).after := by
  obtain ⟨s, -, hrun⟩ := Connection.run_writePacked_eq (c := ⟨w, ⟨d, false⟩⟩) hs h
  rw [writePacked, withStream_device hrun]
  exact ⟨rfl, rfl⟩

/-- What is read of a device for a record of some size: all of its bytes, if they are unpacked or
cannot be, and otherwise all that there were, as the failure says. The bytes that are read are not
too few to be unpacked. -/
structure ReadsRecord (f : Format) (size : ℕ) (d : Device) (raw : Bytes) (d' : Device)
    (used : Use (List Value)) : Prop where
  consumed : d.Consumed raw d'
  resource : used.resource = .device d'
  unpacked : ∀ values, used.outcome = .ok values → raw.length = size ∧ f.unpack raw = .ok values
  refused : ∀ fault, OfBytes fault → used.outcome = .error fault → raw.length = size
  truncated : ∀ requested available, used.outcome = .error (.truncatedStream requested available) →
    requested = size ∧ available = raw.length ∧ raw.length < size
  inside : ∀ offset length n, used.outcome ≠ .error (.bufferTooSmall offset length n)

/-- What a device takes of a record: the start of its bytes, and all of them just if that is what
the writing says. -/
structure WritesRecord (raw : Bytes) (d : Device) (taken : Bytes) (d' : Device) (used : Use ℕ) :
    Prop where
  took : d.Taken taken d'
  resource : used.resource = .device d'
  first : taken <+: raw
  finished : (∃ n, used.outcome = .ok n) ↔ taken = raw
  count : ∀ n, used.outcome = .ok n → n = raw.length

/-- Reading that fails, by what its fault says. -/
lemma ReadsRecord.of_error [Host] {size : ℕ} {raw : Bytes} {d' : Device} {used : Use (List Value)}
    {fault : Fault} (hconsumed : d.Consumed raw d') (hresource : used.resource = .device d')
    (h : used.outcome = .error fault) (hbytes : OfBytes fault → raw.length = size)
    (htruncated : ∀ requested available, fault = .truncatedStream requested available →
      requested = size ∧ available = raw.length ∧ raw.length < size)
    (hinside : ∀ offset length n, fault ≠ .bufferTooSmall offset length n) :
    ReadsRecord f size d raw d' used where
  consumed := hconsumed
  resource := hresource
  unpacked values hok := by cases h.symm.trans hok
  refused other hother herror := by
    cases h.symm.trans herror
    exact hbytes hother
  truncated requested available herror :=
    htruncated requested available (Except.error.inj (h.symm.trans herror))
  inside offset length n herror :=
    hinside offset length n (Except.error.inj (h.symm.trans herror))

lemma exists_readsRecord [Host] (hs : w.session.Sound) (hd : d.file? = none) (hf : Describes v f) :
    ∃ (size : ℕ) (raw : Bytes) (d' : Device), f.size = .ok (size : ℤ) ∧
      ReadsRecord f size d raw d' (w.readPacked (.device d) v) := by
  obtain ⟨ps, stop, hw, hc⟩ := hf.wellFormed.exists_chain 0
  obtain ⟨size, rfl⟩ := Int.eq_ofNat_of_zero_le hc.start_le_stop
  have hsize := Format.size_of_walk hw hc
  obtain ⟨houtcome, hresource⟩ := readPacked_eq hs hf.formatOf hsize d
  obtain ⟨raw, hends⟩ := Device.exists_readEnds hd size
  generalize d.readExactly size = attempt at hends houtcome hresource
  cases hends with
  | @filled _ d' hconsumed hlength =>
    refine ⟨size, raw, d', hsize, ?_⟩
    cases hunpack : f.unpack raw with
    | ok values =>
      have hno : ∀ fault, (w.readPacked (.device d) v).outcome ≠ .error fault := fun fault h => by
        cases (houtcome.trans hunpack).symm.trans h
      exact ⟨hconsumed, hresource, fun _ h => ⟨hlength, houtcome.symm.trans h⟩,
        fun _ _ _ => hlength, fun _ _ h => absurd h (hno _), fun _ _ _ h => hno _ h⟩
    | error fault =>
      -- The record is all there, so only a string that has no text is refused.
      have hin : ∀ p ∈ ps, p.Inside raw.length :=
        hc.inside (le_refl 0) (by exact_mod_cast hlength.ge)
      obtain ⟨_, _, _, _, -, -, -, -, rfl⟩ :=
        (Format.unpackFrom_of_inside hw hc hin).2 fault hunpack
      exact .of_error hconsumed hresource (houtcome.trans hunpack) (fun _ => hlength) nofun nofun
  | @short _ d' hconsumed hlt =>
    refine ⟨size, raw, d', hsize, ?_⟩
    obtain ⟨hshow, hlimit⟩ := Device.limited_truncatedStream (Int.ofNat_lt.mpr hlt)
    by_cases hn : Numeral.Showable size
    · refine .of_error hconsumed hresource (houtcome.trans (congrArg Except.error (hshow hn)))
        nofun (fun requested available h => ?_) nofun
      cases h
      exact ⟨rfl, rfl, hlt⟩
    · exact .of_error hconsumed hresource (houtcome.trans (congrArg Except.error (hlimit hn)))
        nofun nofun nofun
  | @refused fault hunreadable =>
    refine ⟨size, [], d, hsize, ?_⟩
    cases hunreadable <;>
      exact .of_error (.nothing d) hresource houtcome nofun nofun nofun

lemma exists_writesRecord [Host] (hs : w.session.Sound) (hd : d.file? = none) {values : List Value}
    {raw : Bytes} (h : Session.packAs v values = .ok raw) :
    ∃ (taken : Bytes) (d' : Device),
      WritesRecord raw d taken d' (w.writePacked (.device d) v values) := by
  obtain ⟨houtcome, hresource⟩ := writePacked_eq hs h d
  obtain ⟨taken, hends⟩ := Device.exists_writeEnds hd raw
  generalize d.writeAll raw = attempt at hends houtcome hresource
  cases hends with
  | @finished d' htaken =>
    exact ⟨raw, d', htaken, hresource, List.prefix_refl raw, iff_of_true ⟨_, houtcome⟩ rfl,
      fun n hn => (Except.ok.inj (houtcome.symm.trans hn)).symm⟩
  | @short _ d' fault htaken hfirst hne =>
    have hno : ∀ n, (w.writePacked (.device d) v values).outcome ≠ .ok n := fun n hn => by
      cases houtcome.symm.trans hn
    exact ⟨taken, d', htaken, hresource, hfirst, iff_of_false (fun ⟨n, hn⟩ => hno n hn) hne,
      fun n hn => absurd hn (hno n)⟩

/-- Where a device is left by reading and by writing a record, if it is a file in memory, a source
or a sink. For what is no descriptor it is not read, and where packing fails for any reason it is
not written to. What is read for a descriptor is the whole record, unless the device refuses to be
read or has not all of it; and what is written is the start of the packed record, the whole of it
just if the writing succeeds. -/
theorem resource_of_packed [Host] (hs : w.session.Sound) (hd : d.file? = none) (v : Value)
    (values : List Value) :
    (∀ fault, Session.formatOf v = .error fault →
      (w.readPacked (.device d) v).outcome = .error fault ∧
        (w.readPacked (.device d) v).resource = .device d) ∧
    (∀ f, Describes v f → ∃ (size : ℕ) (raw : Bytes) (d' : Device), f.size = .ok (size : ℤ) ∧
      ReadsRecord f size d raw d' (w.readPacked (.device d) v)) ∧
    (∀ fault, Session.packAs v values = .error fault →
      (w.writePacked (.device d) v values).outcome = .error fault ∧
        (w.writePacked (.device d) v values).resource = .device d) ∧
    ∀ raw, Session.packAs v values = .ok raw → ∃ (taken : Bytes) (d' : Device),
      WritesRecord raw d taken d' (w.writePacked (.device d) v values) :=
  ⟨fun _ h => readPacked_of_error hs h d, fun _ hf => exists_readsRecord hs hd hf,
    fun _ h => writePacked_of_error hs h d, fun _ h => exists_writesRecord hs hd h⟩

/-- A source is left behind a string that has no text, and a sink with two bytes of four. -/
theorem resource_of_packed_refused :
    (∃ (raw : Bytes) (d' : Device), raw.length = 2 ∧
      ReadsRecord ⟨.nativeAligned, [⟨2, .known .string⟩], "2s"⟩ 2
        (.source [0xFF, 0xFF, 7] 0 [some 1] []) raw d'
        (readPacked ⟨.empty, ⟨[], false⟩⟩ (.device (.source [0xFF, 0xFF, 7] 0 [some 1] []))
          (.text "2s"))) ∧
    ∃ (taken : Bytes) (d' : Device), taken ≠ [5, 0, 0, 0] ∧
      WritesRecord [5, 0, 0, 0] (.sink [] [some 2, none] []) taken d'
        (writePacked ⟨.empty, ⟨[], false⟩⟩ (.device (.sink [] [some 2, none] [])) (.text "<I")
          [.int 5]) := by
  constructor
  · have hd : Descriptor.compile "2s" = .ok ⟨.nativeAligned, [⟨2, .known .string⟩], "2s"⟩ := by
      cbv
    have hsize : Format.size ⟨.nativeAligned, [⟨2, .known .string⟩], "2s"⟩ = .ok 2 := by rfl
    have hreads : Device.Reads (.source [0xFF, 0xFF, 7] 0 [some 1] []) 2 [(2, [0xFF]), (1, [0xFF])]
        _ 0 :=
      .portion (by decide) (by decide) rfl (.portion (by decide) (by decide) rfl (.filled _))
    have hread := Device.Reads.readExactly (n := 2) hreads (List.prefix_refl _)
    have hunpack : Format.unpack ⟨.nativeAligned, [⟨2, .known .string⟩], "2s"⟩ [0xFF, 0xFF] =
        .error (.invalidUtf8 [0xFF, 0xFF] ⟨0, 1, 0xFF, .invalidStart⟩) := by cbv
    have houtcome := (readPacked_eq (w := ⟨.empty, ⟨[], false⟩⟩) Session.sound_empty
      (Describes.text hd).formatOf hsize (.source [0xFF, 0xFF, 7] 0 [some 1] [])).1
    rw [hread] at houtcome
    obtain ⟨-, hrecord, -⟩ := resource_of_packed (w := ⟨.empty, ⟨[], false⟩⟩)
      (d := .source [0xFF, 0xFF, 7] 0 [some 1] []) Session.sound_empty rfl (.text "2s") []
    obtain ⟨size, raw, d', hn, h⟩ := hrecord _ (.text hd)
    obtain rfl : size = 2 := by exact_mod_cast Except.ok.inj (hn.symm.trans hsize)
    exact ⟨raw, d', h.refused _ (.invalidUtf8 _ _) (houtcome.trans hunpack), h⟩
  · have hraw : Session.packAs (.text "<I") [.int 5] = .ok [5, 0, 0, 0] := by cbv
    have hoffers : Device.Offers (.sink [] [some 2, none] []) [5, 0, 0, 0]
        [([5, 0, 0, 0], 2), ([0, 0], 0)] _ [0, 0] :=
      .portion (by decide) (by decide) rfl (.stalled (by decide) rfl)
    have hwrite := hoffers.writeAll
    have houtcome := (writePacked_eq (w := ⟨.empty, ⟨[], false⟩⟩) Session.sound_empty hraw
      (.sink [] [some 2, none] [])).1
    rw [hwrite] at houtcome
    obtain ⟨-, -, -, hrecord⟩ := resource_of_packed (w := ⟨.empty, ⟨[], false⟩⟩)
      (d := .sink [] [some 2, none] []) Session.sound_empty rfl (.text "<I") [.int 5]
    obtain ⟨taken, d', h⟩ := hrecord _ hraw
    refine ⟨taken, d', fun htaken => ?_, h⟩
    obtain ⟨n, hn⟩ := h.finished.mpr htaken
    cases houtcome.symm.trans hn

end Workspace

end BinaryLayout
