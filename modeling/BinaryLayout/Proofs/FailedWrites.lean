import BinaryLayout.Proofs.RecordStreams

/-!
# Writes that fail before anything is written

A record is packed before its stream is written to, so when packing fails nothing has been
written. A device is left as it was. The file of a path is opened before its record is packed,
though, and opening it to be written makes it empty, or makes it in the first place: so what it
held before is gone with the failure.
-/
namespace BinaryLayout

namespace Connection

variable [Host] {c : Connection} {v : Value} {values : List Value} {fault : Fault}

/-- Where packing fails nothing is written. -/
lemma run_writePacked_of_error (hs : c.workspace.session.Sound)
    (h : Session.packAs v values = .error fault) :
    ∃ s : Session, s.Sound ∧
      (writePacked v values).run.run c = (.error fault, c.moved s c.stream.device) := by
  obtain ⟨hpack, hsound⟩ := Session.run_pack hs v values
  rw [h] at hpack
  exact ⟨_, hsound, by rw [writePacked, run_bind, run_onSession, hpack]⟩

end Connection

namespace Workspace

variable {w : Workspace} {r : Resource} {path : Text} {v : Value} {values : List Value}
  {fault : Fault}

lemma openStream_of_path (hr : r = .path path ∨ r = .value (.text path)) (mode : Text) :
    w.openStream r mode = w.openPath path mode := by
  rcases hr with rfl | rfl <;> rfl

lemma writePacked_of_openFile_error [Host] (hr : r = .path path ∨ r = .value (.text path))
    {other : FileFault} (h : w.directory.openFile path "wb" = .error other) :
    (w.writePacked r v values).outcome = .error (.file other) ∧
      (w.writePacked r v values).workspace.directory = w.directory := by
  simp only [writePacked, withStream, openStream_of_path hr, openPath_eq, h]
  exact ⟨rfl, rfl⟩

/-- Where packing fails the file of a path that is opened is empty afterwards, and all others are
as before. -/
lemma writePacked_of_openFile [Host] (hs : w.session.Sound)
    (hpack : Session.packAs v values = .error fault)
    (hr : r = .path path ∨ r = .value (.text path)) {opened : Opened}
    (h : w.directory.openFile path "wb" = .ok opened) :
    (w.writePacked r v values).outcome = .error fault ∧
      (w.writePacked r v values).workspace.directory.read path = .ok [] ∧
      ∀ other ≠ opened.handle.name, (w.writePacked r v values).workspace.directory.get? other =
        w.directory.get? other := by
  have hopens := Directory.opens_of_openFile h
  obtain ⟨hbinary, hwritable, hsmall, hoffset, hcontent, hdirectory⟩ := hopens.write
  have hdevice : deviceOf opened = .file (.ofHandle opened.handle) := by
    simp only [deviceOf, hbinary, if_true]
  have hwriting : (BufferedFile.ofHandle opened.handle).Writing opened.handle.name [] :=
    hcontent ▸ BufferedFile.writing_ofHandle hwritable hsmall (by rw [hoffset, hcontent]; rfl)
  obtain ⟨hname, hclosed, hopen, -⟩ := hwriting.close (Nat.zero_le _)
  obtain ⟨s, -, hrun⟩ := Connection.run_writePacked_of_error
    (c := ⟨{ w.note [.opening path "wb"] with directory := opened.directory },
      ⟨.file (.ofHandle opened.handle), true⟩⟩) hs hpack
  have huse : (w.writePacked r v values).outcome = .error fault ∧
      (w.writePacked r v values).workspace.directory =
        opened.directory.store (BufferedFile.ofHandle opened.handle).close.handle := by
    simp only [writePacked, withStream, openStream_of_path hr, openPath_eq, h, hdevice]
    change (Connection.writePacked v values).run _ = _ at hrun
    rw [hrun]
    exact ⟨rfl, rfl⟩
  have hstored := Directory.get?_store hopen opened.directory
  rw [hname, hclosed] at hstored
  refine ⟨huse.1, ?_, fun other hother => ?_⟩
  · rw [huse.2]
    exact hopens.read hstored
  · rw [huse.2, Directory.store, if_pos hopen, hname, hclosed, hdirectory]
    exact (Directory.get?_put_of_ne hother _).trans (Directory.get?_put_of_ne hother _)

/-- Where packing fails, a device is left as it was, but the file of a path is not: one that
cannot be opened is refused for that, and any other is empty afterwards, whatever it held and
whether it was there or not. All other files are as before. So what the file held is kept just
if it held nothing. -/
theorem writePacked_refused [Host] (hs : w.session.Sound)
    (hpack : Session.packAs v values = .error fault) :
    (∀ d, (w.writePacked (.device d) v values).outcome = .error fault ∧
      (w.writePacked (.device d) v values).resource = .device d) ∧
    ∀ r path, (r = .path path ∨ r = .value (.text path)) →
      (∀ content, w.directory.read path = .ok content →
        (w.writePacked r v values).outcome = .error fault ∧
        (w.writePacked r v values).workspace.directory.read path = .ok []) ∧
      (∀ other, w.directory.openFile path "wb" = .error other →
        (w.writePacked r v values).outcome = .error (.file other) ∧
        (w.writePacked r v values).workspace.directory = w.directory) ∧
      (∀ opened, w.directory.openFile path "wb" = .ok opened →
        (w.writePacked r v values).outcome = .error fault ∧
        (w.writePacked r v values).workspace.directory.read path = .ok [] ∧
        ∀ other ≠ opened.handle.name,
          (w.writePacked r v values).workspace.directory.get? other =
            w.directory.get? other) := by
  refine ⟨fun d => ?_, fun r path hr => ⟨fun content hread => ?_,
    fun other h => writePacked_of_openFile_error hr h,
    fun opened h => writePacked_of_openFile hs hpack hr h⟩⟩
  · obtain ⟨s, -, hrun⟩ := Connection.run_writePacked_of_error (c := ⟨w, ⟨d, false⟩⟩) hs hpack
    change (Connection.writePacked v values).run _ = _ at hrun
    simp only [writePacked, withStream, openStream]
    rw [hrun]
    exact ⟨rfl, rfl⟩
  · obtain ⟨opened, h⟩ := Directory.exists_openFile_write hread
    obtain ⟨houtcome, hempty, -⟩ := writePacked_of_openFile hs hpack hr h
    exact ⟨houtcome, hempty⟩

/-- A record without its value: a file of two bytes is emptied, and one that was not there is
made. -/
theorem writePacked_refused_missing :
    ∃ fault, Session.packAs (.text "<H") [] = .error fault ∧
      (writePacked ⟨.empty, ⟨[([0x66], [1, 2])], false⟩⟩ (.path "f") (.text "<H") []).outcome =
        .error fault ∧
      Directory.read ⟨[([0x66], [1, 2])], false⟩ "f" = .ok [1, 2] ∧
      (writePacked ⟨.empty, ⟨[([0x66], [1, 2])], false⟩⟩ (.path "f") (.text "<H")
        []).workspace.directory.read "f" = .ok [] ∧
      Directory.read ⟨[], false⟩ "f" = .error (.notFound "f") ∧
      (writePacked ⟨.empty, ⟨[], false⟩⟩ (.path "f") (.text "<H")
        []).workspace.directory.read "f" = .ok [] := by
  have hpack : Session.packAs (.text "<H") [] = .error (.insufficientValues 1 0) := by cbv
  have hread : Directory.read ⟨[([0x66], [1, 2])], false⟩ "f" = .ok [1, 2] := by rfl
  have hnone : Directory.read ⟨[], false⟩ "f" = .error (.notFound "f") := by rfl
  obtain ⟨houtcome, hempty⟩ := ((writePacked_refused (w := ⟨.empty, ⟨[([0x66], [1, 2])], false⟩⟩)
    Session.sound_empty hpack).2 (.path "f") "f" (.inl rfl)).1 _ hread
  obtain ⟨-, hmade, -⟩ := ((writePacked_refused (w := ⟨.empty, ⟨[], false⟩⟩)
    Session.sound_empty hpack).2 (.path "f") "f" (.inl rfl)).2.2 _ (by rfl)
  exact ⟨_, hpack, houtcome, hread, hempty, hnone, hmade⟩

end Workspace

end BinaryLayout
