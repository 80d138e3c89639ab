import BinaryLayout.Proofs.Directories
import BinaryLayout.Proofs.LayoutAgreement
import BinaryLayout.Proofs.Sessions
import BinaryLayout.Proofs.Transfers
import BinaryLayout.Stream.Connection

/-!
# Streams of records

Records that are written to a stream one after the other are there one behind the other. Each is
packed and unpacked for itself, so neither the records around it nor the portions in which the
stream takes and gives its bytes matter, and reading them with the same descriptors gives what
unpacking each record gives.
-/
namespace BinaryLayout

/-! ## Runs of operations -/

/-- One operation after the other, whether they succeed or not. -/
def Connection.each {α β : Type} (action : α → StreamAction β) (items : List α) :
    StateM Connection (List (Except Fault β)) :=
  items.mapM fun item => (action item).run

namespace Connection

variable {α β : Type}

/-- The connection with another session, and its device in another state. -/
def moved (c : Connection) (s : Session) (d : Device) : Connection :=
  ⟨{ c.workspace with session := s }, { c.stream with device := d }⟩

@[simp] lemma moved_moved (c : Connection) (s s' : Session) (d d' : Device) :
    (c.moved s d).moved s' d' = c.moved s' d' := rfl

@[simp] lemma session_moved (c : Connection) (s : Session) (d : Device) :
    (c.moved s d).workspace.session = s := rfl

@[simp] lemma device_moved (c : Connection) (s : Session) (d : Device) :
    (c.moved s d).stream.device = d := rfl

lemma run_ofExcept (outcome : Except Fault α) (c : Connection) :
    (MonadExcept.ofExcept outcome : StreamAction α).run.run c = (outcome, c) := by
  cases outcome <;> rfl

lemma run_onSession (action : Action α) (c : Connection) :
    (onSession action).run.run c =
      ((action.run.run c.workspace.session).1,
        c.moved (action.run.run c.workspace.session).2 c.stream.device) :=
  run_ofExcept _ _

lemma run_onDevice (f : Device → Attempt Device α) (c : Connection) :
    (onDevice f).run.run c =
      ((f c.stream.device).outcome, c.moved c.workspace.session (f c.stream.device).after) :=
  run_ofExcept _ _

lemma run_each_cons (action : α → StreamAction β) (item : α) (items : List α) (c : Connection) :
    (each action (item :: items)).run c =
      (((action item).run.run c).1 :: ((each action items).run ((action item).run.run c).2).1,
        ((each action items).run ((action item).run.run c).2).2) := by
  simp only [each, List.mapM_cons]
  rfl

end Connection

/-! ## Records -/

/-- The value is an accepted descriptor, as a text or compiled. -/
inductive Describes : Value → Format → Prop where
  | text {d : Text} {f : Format} : Descriptor.compile d = .ok f → Describes (.text d) f
  | format {d : Text} {f : Format} : Descriptor.compile d = .ok f → Describes (.format f) f

lemma Describes.formatOf {v : Value} {f : Format} (h : Describes v f) :
    Session.formatOf v = .ok f := by
  cases h with
  | text hd => exact hd
  | format => rfl

lemma Describes.wellFormed {v : Value} {f : Format} (h : Describes v f) : f.WellFormed := by
  cases h with
  | text hd => exact Descriptor.wellFormed_of_compile hd
  | format hd => exact Descriptor.wellFormed_of_compile hd

/-- The descriptor and the values are packed into the record. -/
def Packs [Host] (item : Value × List Value) (raw : Bytes) : Prop :=
  ∃ f record, Describes item.1 f ∧ f.pack item.2 = .ok record ∧ record.data = raw

lemma Format.size_of_pack [Host] {f : Format} (hf : f.WellFormed) {values : List Value}
    {record : PackedRecord} (h : f.pack values = .ok record) :
    f.size = .ok (record.data.length : ℤ) ∧ record.data.length ≤ Host.storage := by
  obtain ⟨ps, stop, hw, hc⟩ := hf.exists_chain 0
  have hlength := (filled_of_pack hw hc h).1
  have hends := packEnds hw hc values
  rw [h] at hends
  refine ⟨hlength ▸ size_of_walk hw hc, ?_⟩
  cases hends with
  | packed hle _ => exact_mod_cast hlength ▸ hle

namespace Connection

open Device

variable [Host] {c : Connection} {medium : Medium} {limit : ℕ} {data : Bytes}

/-- Writing a record is writing the bytes that it is packed into. -/
lemma run_writePacked_eq (hs : c.workspace.session.Sound) {v : Value} {values : List Value}
    {raw : Bytes} (h : Session.packAs v values = .ok raw) :
    ∃ s : Session, s.Sound ∧ (writePacked v values).run.run c =
      ((c.stream.device.writeAll raw).outcome, c.moved s (c.stream.device.writeAll raw).after) := by
  obtain ⟨houtcome, hsound⟩ := Session.run_pack hs v values
  rw [h] at houtcome
  rw [writePacked, run_bind, run_onSession, houtcome]
  exact ⟨_, hsound, run_onDevice _ _⟩

/-- Reading a record is reading as many bytes as it takes, and unpacking them. -/
lemma run_readPacked_eq (hs : c.workspace.session.Sound) {v : Value} {f : Format}
    (hf : Session.formatOf v = .ok f) {n : ℤ} (hsize : f.size = .ok n) :
    ∃ s : Session, s.Sound ∧ (readPacked v).run.run c =
      ((c.stream.device.readExactly n).outcome.bind f.unpack,
        c.moved s (c.stream.device.readExactly n).after) := by
  obtain ⟨hformat, hsound⟩ := Session.run_formatOf hs v
  rw [hf] at hformat
  have hreport : ∀ s : Session, (Session.report f.size).run.run s = (.ok n, s) := by
    intro s
    rw [hsize]
    rfl
  rw [readPacked, run_bind, run_onSession, hformat]
  simp only [run_bind, run_onSession, hreport, run_onDevice, device_moved, session_moved,
    moved_moved]
  cases (c.stream.device.readExactly n).outcome with
  | error fault => exact ⟨_, hsound, rfl⟩
  | ok raw =>
    obtain ⟨hunpack, hlast⟩ := Session.run_unpackFormat hsound f raw 0
    exact ⟨_, hlast, Prod.ext hunpack rfl⟩

/-- Writing a record puts its bytes behind what was written before. -/
lemma run_writePacked {item : Value × List Value} {raw : Bytes} (hp : Packs item raw)
    (hs : c.workspace.session.Sound) (ht : Takes limit medium c.stream.device data)
    (hroom : data.length + raw.length ≤ limit) :
    ∃ s d, (writePacked item.1 item.2).run.run c = (.ok raw.length, c.moved s d) ∧ s.Sound ∧
      Takes limit medium d (data ++ raw) := by
  obtain ⟨f, record, hf, hpack, rfl⟩ := hp
  obtain ⟨d, hwrite, hd⟩ := ht.writeAll hroom
  have hraw : Session.packAs item.1 item.2 = .ok record.data := by
    rw [Session.packAs, hf.formatOf, Except.bind, hpack, Except.map]
  obtain ⟨s, hsound, hrun⟩ := run_writePacked_eq hs hraw
  rw [hwrite] at hrun
  exact ⟨s, d, hrun, hsound, hd⟩

/-- Reading a record gives what unpacking its bytes gives, and reads no more than them. -/
lemma run_readPacked {v : Value} {f : Format} (hf : Describes v f) {position n : ℕ}
    (hsize : f.size = .ok (n : ℤ)) (hn : (n : ℤ) ≤ greatestSize)
    (hs : c.workspace.session.Sound) (hg : Gives medium c.stream.device data position)
    (hin : position + n ≤ data.length) :
    ∃ s d, (readPacked v).run.run c = (f.unpack ((data.drop position).take n), c.moved s d) ∧
      s.Sound ∧ Gives medium d data (position + n) := by
  obtain ⟨d, hread, hd⟩ := hg.readExactly hn hin
  obtain ⟨s, hsound, hrun⟩ := run_readPacked_eq hs hf.formatOf hsize
  rw [hread] at hrun
  exact ⟨s, d, hrun, hsound, hd⟩

/-- Writing records one after the other puts them one behind the other. -/
theorem run_each_writePacked {items : List (Value × List Value)} {raws : List Bytes}
    (hp : List.Forall₂ Packs items raws) (hs : c.workspace.session.Sound)
    (ht : Takes limit medium c.stream.device data)
    (hroom : data.length + raws.flatten.length ≤ limit) :
    ∃ s d, (each (fun item => writePacked item.1 item.2) items).run c =
        (raws.map fun raw => .ok raw.length, c.moved s d) ∧ s.Sound ∧
      Takes limit medium d (data ++ raws.flatten) := by
  induction hp generalizing c data with
  | nil => exact ⟨_, _, rfl, hs, by rwa [List.flatten_nil, List.append_nil]⟩
  | @cons item raw items raws hitem _ ih =>
    rw [List.flatten_cons, List.length_append, ← Nat.add_assoc] at hroom
    obtain ⟨s, d, hfirst, hs', ht'⟩ := run_writePacked hitem hs ht (by omega)
    obtain ⟨s', d', hothers, hsound, htakes⟩ := ih (c := c.moved s d) hs' ht'
      (by rwa [List.length_append])
    refine ⟨s', d', ?_, hsound, by rwa [List.flatten_cons, ← List.append_assoc]⟩
    rw [run_each_cons, hfirst, hothers]
    rfl

/-- Reading records one after the other gives what unpacking each of them gives, and reads no
more than them. -/
theorem run_each_readPacked {items : List (Value × List Value)} {raws : List Bytes}
    (hp : List.Forall₂ Packs items raws) (hs : c.workspace.session.Sound)
    {before after : Bytes} (hg : Gives medium c.stream.device data before.length)
    (hdata : data = before ++ (raws.flatten ++ after)) :
    ∃ s d, (each readPacked (items.map Prod.fst)).run c =
        (List.zipWith Session.unpackAs (items.map Prod.fst) raws, c.moved s d) ∧ s.Sound ∧
      Gives medium d data (before ++ raws.flatten).length := by
  induction hp generalizing c before with
  | nil => exact ⟨_, _, rfl, hs, by rwa [List.flatten_nil, List.append_nil]⟩
  | @cons item raw items raws hitem _ ih =>
    obtain ⟨f, record, hf, hpack, rfl⟩ := hitem
    obtain ⟨hsize, hkept⟩ := Format.size_of_pack hf.wellFormed hpack
    rw [List.flatten_cons, List.append_assoc] at hdata
    have hraw : (data.drop before.length).take record.data.length = record.data := by
      rw [hdata, List.drop_left, List.take_left]
    have hin : before.length + record.data.length ≤ data.length := by
      rw [hdata, List.length_append, List.length_append]
      omega
    obtain ⟨s, d, hfirst, hs', hg'⟩ := run_readPacked hf hsize
      ((Int.ofNat_le.mpr hkept).trans Host.storage_le_size) hs hg hin
    rw [← List.length_append] at hg'
    obtain ⟨s', d', hothers, hsound, hgives⟩ := ih (c := c.moved s d) hs' hg'
      (by rw [hdata, List.append_assoc])
    refine ⟨s', d', ?_, hsound, by rwa [List.flatten_cons, ← List.append_assoc]⟩
    rw [List.map_cons, run_each_cons, hfirst, hothers, hraw, List.zipWith_cons_cons]
    have hunpack : Session.unpackAs item.1 record.data = f.unpack record.data := by
      rw [Session.unpackAs, hf.formatOf]
      rfl
    rw [hunpack]
    rfl

end Connection

/-! ## Devices that are used without a stream -/

namespace Connection

variable {α β : Type}

/-- The operation changes the session and the device of a connection, and nothing else. -/
def Moves (action : StreamAction α) : Prop :=
  ∀ c, ∃ s d, (action.run.run c).2 = c.moved s d

lemma moves_onSession (action : Action α) : Moves (onSession action) := fun c =>
  ⟨_, _, congrArg Prod.snd (run_onSession action c)⟩

lemma moves_onDevice (f : Device → Attempt Device α) : Moves (onDevice f) := fun c =>
  ⟨_, _, congrArg Prod.snd (run_onDevice f c)⟩

lemma moves_bind {x : StreamAction α} {g : α → StreamAction β} (hx : Moves x)
    (hg : ∀ a, Moves (g a)) : Moves (x >>= g) := by
  intro c
  obtain ⟨s, d, h⟩ := hx c
  rw [run_bind]
  revert h
  rcases x.run.run c with ⟨fault | a, c'⟩
  · exact fun h => ⟨s, d, h⟩
  · rintro rfl
    exact hg a (c.moved s d)

lemma moves_writePacked [Host] (v : Value) (values : List Value) : Moves (writePacked v values) :=
  moves_bind (moves_onSession _) fun _ => moves_onDevice _

lemma moves_readPacked [Host] (v : Value) : Moves (readPacked v) :=
  moves_bind (moves_onSession _) fun _ => moves_bind (moves_onSession _) fun _ =>
    moves_bind (moves_onDevice _) fun _ => moves_onSession _

end Connection

namespace Workspace

variable {α β : Type}

/-- One use of a resource after the other, whether they succeed or not. -/
def useEach (use : Workspace → Resource → α → Use β) (w : Workspace) (r : Resource) :
    List α → List (Except Fault β) × Workspace × Resource
  | [] => ([], w, r)
  | item :: items =>
    let first := use w r item
    let others := useEach use first.workspace first.resource items
    (first.outcome :: others.1, others.2)

/-- A device that is used once is what the operation leaves of it. -/
lemma withStream_device [Host] {action : StreamAction α} {mode : Text} {w : Workspace}
    {d d' : Device} {outcome : Except Fault α} {s : Session} (h : action.run.run ⟨w, ⟨d, false⟩⟩ =
      (outcome, Connection.moved ⟨w, ⟨d, false⟩⟩ s d')) :
    w.withStream (.device d) mode action = ⟨outcome, { w with session := s }, .device d'⟩ := by
  change action.run ⟨w, ⟨d, false⟩⟩ = _ at h
  simp only [withStream, openStream, h]
  rfl

/-- Using a device time after time is using one stream of it. -/
theorem useEach_device [Host] {action : α → StreamAction β}
    (ha : ∀ item, Connection.Moves (action item)) (mode : Text) (w : Workspace) (d : Device)
    (items : List α) :
    useEach (fun w r item => w.withStream r mode (action item)) w (.device d) items =
      (((Connection.each action items).run ⟨w, ⟨d, false⟩⟩).1,
        ((Connection.each action items).run ⟨w, ⟨d, false⟩⟩).2.workspace,
        .device ((Connection.each action items).run ⟨w, ⟨d, false⟩⟩).2.stream.device) := by
  induction items generalizing w d with
  | nil => rfl
  | cons item items ih =>
    obtain ⟨s, d', h⟩ := ha item ⟨w, ⟨d, false⟩⟩
    have hfirst : w.withStream (.device d) mode (action item) =
        ⟨((action item).run.run ⟨w, ⟨d, false⟩⟩).1, { w with session := s }, .device d'⟩ :=
      withStream_device (Prod.ext rfl h)
    rw [useEach, hfirst, ih, Connection.run_each_cons, h]
    rfl

/-! ## Round trips -/

section Path

variable {w w' : Workspace} {path mode : Text} {f : BufferedFile} {owned : Bool}

/-- Opening a path is noted, and may change the directory. -/
lemma openPath_eq (w : Workspace) (path mode : Text) :
    w.openPath path mode =
      match w.directory.openFile path mode with
      | .error fault => .refuse (w.note [.opening path mode]) (.file fault)
      | .ok opened => ⟨.ok ⟨deviceOf opened, true⟩,
          { w.note [.opening path mode] with directory := opened.directory }⟩ := rfl

/-- A file that was opened by a path to be written, and that is empty. -/
lemma writing_of_openPath (h : w.openPath path mode = ⟨.ok ⟨.file f, owned⟩, w'⟩)
    (hw : f.handle.writable = true) (hempty : f.handle.content = []) :
    owned = true ∧ f.Writing f.handle.name [] ∧ w'.session.cache = w.session.cache ∧
      ∀ (d : Directory) content, d.get? f.handle.name = some content →
        d.read path = .ok content := by
  rw [openPath_eq] at h
  cases hopen : w.directory.openFile path mode with
  | error fault =>
    rw [hopen] at h
    cases h
  | ok opened =>
    have hopens := Directory.opens_of_openFile hopen
    rw [hopen] at h
    obtain ⟨hstream, rfl⟩ := Attempt.mk.inj h
    obtain ⟨hdevice, rfl⟩ := Stream.mk.inj (Except.ok.inj hstream)
    have hf : f = .ofHandle opened.handle := by
      unfold deviceOf at hdevice
      dsimp only at hdevice
      split at hdevice
      · exact (Device.file.inj hdevice).symm
      · cases hdevice
    subst hf
    refine ⟨rfl, hempty ▸ BufferedFile.writing_ofHandle hw ?_ ?_, rfl,
      fun d content hget => hopens.read hget⟩
    · cases hopens
      rfl
    · cases hopens with
      | @intro _ access _ _ _ content =>
        obtain rfl : content = [] := hempty
        exact ite_self 0

end Path

/-- Records that are packed make a round trip through any stream. Whatever the portions are in
which a sink takes them, and as long as there is room for them in a file in memory or in the file
of a path, each write gives the size of its record and the stream holds the records one behind
the other. Whatever the portions are in which they are given again, and whatever is around them,
each read gives what unpacking its record gives, and behind the last one the stream is at their
end. -/
theorem records_roundTrip [Host] {items : List (Value × List Value)} {raws : List Bytes}
    (hp : List.Forall₂ Packs items raws) :
    List.Forall₂ (fun item raw =>
      (Session.formatOf item.1).bind Format.size = .ok (raw.length : ℤ)) items raws ∧
    (∀ (w : Workspace) d medium, w.session.Sound →
      Device.Takes raws.flatten.length medium d [] →
      ∃ s d', useEach (fun w r item => w.writePacked r item.1 item.2) w (.device d) items =
          (raws.map fun raw => .ok raw.length, { w with session := s }, .device d') ∧ s.Sound ∧
        Device.Takes raws.flatten.length medium d' raws.flatten) ∧
    (∀ (w w' : Workspace) path mode f owned, w.session.Sound →
      w.openStream (.path path) mode = ⟨.ok ⟨.file f, owned⟩, w'⟩ → f.handle.writable = true →
      f.handle.content = [] → raws.flatten.length ≤ Host.storage →
      ∃ c, (Connection.each (fun item => Connection.writePacked item.1 item.2) items).run
          ⟨w', ⟨.file f, owned⟩⟩ = (raws.map fun raw => .ok raw.length, c) ∧
        c.close.workspace.directory.read path = .ok raws.flatten) ∧
    ∀ (w : Workspace) d medium before after, w.session.Sound →
      Device.Gives medium d (before ++ (raws.flatten ++ after)) before.length →
      ∃ s d', useEach readPacked w (.device d) (items.map Prod.fst) =
          (List.zipWith Session.unpackAs (items.map Prod.fst) raws, { w with session := s },
            .device d') ∧ s.Sound ∧
        Device.Gives medium d' (before ++ (raws.flatten ++ after))
          (before ++ raws.flatten).length := by
  refine ⟨hp.imp fun item raw hitem => ?_, fun w d medium hs ht => ?_,
    fun w w' path mode f owned hs hopen hw hempty hroom => ?_,
    fun w d medium before after hs hg => ?_⟩
  · obtain ⟨f, record, hf, hpack, rfl⟩ := hitem
    rw [hf.formatOf]
    exact (Format.size_of_pack hf.wellFormed hpack).1
  · obtain ⟨s, d', hrun, hsound, htakes⟩ :=
      Connection.run_each_writePacked (c := ⟨w, ⟨d, false⟩⟩) hp hs ht (by simp)
    refine ⟨s, d', ?_, hsound, htakes⟩
    have huse := useEach_device (fun item : Value × List Value =>
      Connection.moves_writePacked item.1 item.2) "wb" w d items
    rw [hrun] at huse
    exact huse
  · obtain ⟨rfl, hwriting, hcache, hread⟩ := writing_of_openPath hopen hw hempty
    have hs' : w'.session.Sound := by
      unfold Session.Sound
      rwa [hcache]
    obtain ⟨s, d, hrun, -, htakes⟩ :=
      Connection.run_each_writePacked (c := ⟨w', ⟨.file f, true⟩⟩) hp hs' (.file hwriting hroom)
        (by simp)
    refine ⟨_, hrun, ?_⟩
    cases htakes with
    | file hwritten _ =>
      obtain ⟨hname, hcontent, hwritable, -⟩ := hwritten.close hroom
      have hstored := Directory.get?_store hwritable w'.directory
      rw [hname, hcontent] at hstored
      exact hread _ _ hstored
  · obtain ⟨s, d', hrun, hsound, hgives⟩ :=
      Connection.run_each_readPacked (c := ⟨w, ⟨d, false⟩⟩) hp hs hg rfl
    refine ⟨s, d', ?_, hsound, hgives⟩
    have huse := useEach_device Connection.moves_readPacked "rb" w d (items.map Prod.fst)
    rw [hrun] at huse
    exact huse

/-- Two records that are taken and given in portions of one to three bytes, and the file of a
path that is made for them. -/
theorem records_roundTrip_portions :
    ∃ records : Bytes, records = [1, 0, 2, 0, 0, 0, 3, 0, 0, 0] ∧
      (∃ s d, useEach (fun w r (item : Value × List Value) => w.writePacked r item.1 item.2)
          ⟨.empty, ⟨[], false⟩⟩ (.device (.sink [] [some 1, some 3] []))
          [(.text "<H", [.int 1]), (.text "@bi", [.int 2, .int 3])] =
            ([.ok 2, .ok 8], ⟨s, ⟨[], false⟩⟩, .device d) ∧
        Device.Takes records.length .sink d records) ∧
      (∃ f w c, openStream ⟨.empty, ⟨[], false⟩⟩ (.path "f") "wb" = ⟨.ok ⟨.file f, true⟩, w⟩ ∧
        (Connection.each (fun item : Value × List Value =>
          Connection.writePacked item.1 item.2)
          [(.text "<H", [.int 1]), (.text "@bi", [.int 2, .int 3])]).run ⟨w, ⟨.file f, true⟩⟩ =
            ([.ok 2, .ok 8], c) ∧ c.close.workspace.directory.read "f" = .ok records) ∧
      ∃ s d, useEach readPacked ⟨.empty, ⟨[], false⟩⟩
          (.device (.source records 0 [some 2, some 1] [])) [.text "<H", .text "@bi"] =
            ([.ok [.int 1], .ok [.int 2, .int 3]], ⟨s, ⟨[], false⟩⟩, .device d) ∧
        Device.Gives .source d records 10 := by
  have hfirst : Packs (.text "<H", [.int 1]) [1, 0] :=
    ⟨⟨.littleEndian, [⟨1, .known .uint16⟩], "<H"⟩, ⟨[1, 0], 0, 1⟩, .text (by cbv), by cbv, rfl⟩
  have hsecond : Packs (.text "@bi", [.int 2, .int 3]) [2, 0, 0, 0, 3, 0, 0, 0] :=
    ⟨⟨.nativeAligned, [⟨1, .known .int8⟩, ⟨1, .known .int32⟩], "@bi"⟩,
      ⟨[2, 0, 0, 0, 3, 0, 0, 0], 0, 2⟩, .text (by cbv), by cbv, rfl⟩
  obtain ⟨-, hwrite, hpath, hread⟩ := records_roundTrip (.cons hfirst (.cons hsecond .nil))
  have hgrants : ∀ k m : ℕ, 0 < k → 0 < m → Device.Grants [some k, some m] := by
    intro k m hk hm g hg
    simp only [List.mem_cons, List.not_mem_nil, or_false] at hg
    rcases hg with rfl | rfl
    · exact ⟨k, rfl, hk⟩
    · exact ⟨m, rfl, hm⟩
  refine ⟨_, rfl, ?_, ?_, ?_⟩
  · obtain ⟨s, d, hrun, -, htakes⟩ := hwrite ⟨.empty, ⟨[], false⟩⟩ (.sink [] [some 1, some 3] [])
      .sink Session.sound_empty (.sink (hgrants 1 3 (by decide) (by decide)))
    exact ⟨s, d, hrun, htakes⟩
  · obtain ⟨c, hrun, hcontent⟩ := hpath ⟨.empty, ⟨[], false⟩⟩ _ "f" "wb" _ true Session.sound_empty
      (by rfl) rfl rfl (by decide)
    exact ⟨_, _, c, by rfl, hrun, hcontent⟩
  · obtain ⟨s, d, hrun, -, hgives⟩ := hread ⟨.empty, ⟨[], false⟩⟩
      (.source [1, 0, 2, 0, 0, 0, 3, 0, 0, 0] 0 [some 2, some 1] []) .source [] []
      Session.sound_empty (.source (hgrants 2 1 (by decide) (by decide)))
    have hvalues : List.zipWith Session.unpackAs [.text "<H", .text "@bi"]
        [[1, 0], [2, 0, 0, 0, 3, 0, 0, 0]] = [.ok [.int 1], .ok [.int 2, .int 3]] := by cbv
    exact ⟨s, d, hrun.trans (congrArg (·, _) hvalues), hgives⟩

end Workspace

end BinaryLayout
