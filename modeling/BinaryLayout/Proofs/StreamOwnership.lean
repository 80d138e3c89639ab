import BinaryLayout.Proofs.ClosedFiles
import BinaryLayout.Proofs.StreamPositions

/-!
# Who closes a stream

A stream closes what it opened itself, the file of a path, and nothing else. So after any steps
a device is closed by a closing step of a stream that opened it, or it is a file in memory that has
lost its storage, which no stream prevents. A file that is closed stays as it is, whatever is done
next.
-/
namespace BinaryLayout

/-! ## Steps -/

namespace StreamStep

variable [Host]

/-- The device loses its storage when the step writes to it. -/
def LosesStorage (step : StreamStep) (d : Device) : Prop :=
  ∃ data, step.written? = some data ∧ d.LosesStorage data

variable (step : StreamStep) {d : Device}

lemma deviceAfter_of_finished (h : d.Finished) : step.deviceAfter d = d :=
  step.deviceAfter_cases d (P := fun _ d' => d' = d) rfl h.after_readExactly h.after_writeAll
    h.refuses_tell.after (fun position => (h.refuses_seek position).after) h.refuses_flush.after

end StreamStep

namespace Connection

variable {c : Connection} {step : StreamStep}

/-- What every step keeps: the session is sound, the stream owns what it did, and its device stays
of its kind. An owned device is a file with a window. -/
structure Sound (owned : Bool) (kind : String) (c : Connection) : Prop where
  session : c.workspace.session.Sound
  ownership : c.stream.owned = owned
  kindName : c.stream.device.kindName = kind
  file : owned = true → c.stream.device.file?.isSome = true

variable {owned : Bool} {kind : String}

lemma Sound.of_kindName (h : c.Sound owned kind) {c' : Connection}
    (hs : c'.workspace.session.Sound) (howned : c'.stream.owned = c.stream.owned)
    (hkind : c'.stream.device.kindName = c.stream.device.kindName) : c'.Sound owned kind := by
  refine ⟨hs, howned.trans h.ownership, hkind.trans h.kindName, fun ho => ?_⟩
  rw [Device.isSome_file?_iff, hkind, ← Device.isSome_file?_iff]
  exact h.file ho

variable [Host]

lemma device_close_of_owned (h : c.stream.owned = true) :
    c.close.stream.device = c.stream.device.close := by
  simp only [close, h, Bool.not_true, Bool.false_eq_true, if_false]

lemma Sound.close (h : c.Sound owned kind) : c.close.Sound owned kind := by
  cases ho : c.stream.owned with
  | false => rwa [close_of_not_owned ho]
  | true =>
    refine h.of_kindName ?_ ?_ ?_
    · simpa only [Connection.close, ho, Bool.not_true, Bool.false_eq_true, if_false] using h.session
    · simp only [Connection.close, ho, Bool.not_true, Bool.false_eq_true, if_false]
    · rw [device_close_of_owned ho]
      cases c.stream.device <;> rfl

theorem Sound.run (h : c.Sound owned kind) (step : StreamStep) :
    (step.run.run.run c).2.Sound owned kind := by
  by_cases hcloses : step.Closes
  · obtain ⟨reply, hrun⟩ := run_of_closes hcloses c
    rw [hrun]
    exact h.close
  · obtain ⟨s, hs, hrun⟩ := run_of_not_closes h.session hcloses
    rw [hrun]
    exact h.of_kindName hs rfl (step.kindName_deviceAfter _)

lemma Sound.after (h : c.Sound owned kind) (steps : List StreamStep) :
    (c.after steps).Sound owned kind := by
  induction steps generalizing c with
  | nil => exact h
  | cons step steps ih =>
    rw [after_cons]
    exact ih (h.run step)

/-- One of the steps loses the storage of the device, as the ones before it left that. -/
def LosesStorage (c : Connection) (steps : List StreamStep) : Prop :=
  ∃ before step rest, steps = before ++ step :: rest ∧
    step.LosesStorage (c.after before).stream.device

/-- The stream has closed the file that it opened, and the directory has its content. -/
structure Ended (c : Connection) : Prop where
  owned : c.stream.owned = true
  finished : c.stream.device.Finished
  stored : ∀ f, c.stream.device.file? = some f →
    c.workspace.directory.store f.handle = c.workspace.directory

lemma Ended.close (h : c.Ended) : c.close = c := by
  obtain ⟨howned, hfinished, hstored⟩ := h
  obtain ⟨f, hf⟩ := Option.isSome_iff_exists.mp hfinished.isFile
  obtain ⟨⟨session, directory⟩, device, owned⟩ := c
  obtain rfl : owned = true := howned
  have hdirectory : directory.store f.handle = directory := hstored f hf
  simp only [Connection.close, Bool.not_true, Bool.false_eq_true, if_false, hfinished.close, hf,
    hdirectory]

/-- A step changes at most the session when the stream has ended. -/
theorem Ended.run (h : c.Ended) (hs : c.workspace.session.Sound) (step : StreamStep) :
    ∃ s : Session, s.Sound ∧ (step.run.run.run c).2 = c.moved s c.stream.device := by
  by_cases hcloses : step.Closes
  · obtain ⟨reply, hrun⟩ := run_of_closes hcloses c
    rw [hrun, h.close]
    exact ⟨_, hs, rfl⟩
  · obtain ⟨s, hsound, hrun⟩ := run_of_not_closes hs hcloses
    rw [step.deviceAfter_of_finished h.finished] at hrun
    exact ⟨s, hsound, hrun⟩

theorem Ended.after (h : c.Ended) (hs : c.workspace.session.Sound) (steps : List StreamStep) :
    ∃ s : Session, s.Sound ∧ c.after steps = c.moved s c.stream.device := by
  induction steps generalizing c with
  | nil => exact ⟨_, hs, rfl⟩
  | cons step steps ih =>
    obtain ⟨s, hsound, hrun⟩ := h.run hs step
    have hended : (c.moved s c.stream.device).Ended := ⟨h.owned, h.finished, h.stored⟩
    rw [after_cons, hrun]
    exact ih hended hsound

/-- The stream can be closed, but nothing is read from it and nothing written to it. -/
structure OnlyCloses (c : Connection) : Prop where
  closes : ∀ step : StreamStep, step.Closes → ∃ reply, (step.run.run.run c).1 = .ok reply
  reads : ∀ n, 0 < n → ∃ fault, ((StreamStep.readExactly n).run.run.run c).1 = .error fault
  writes : ∀ data, data ≠ [] →
    ∃ fault, ((StreamStep.writeAll data).run.run.run c).1 = .error fault

lemma onlyCloses_of_finished (h : c.stream.device.Finished) : c.OnlyCloses := by
  refine ⟨fun step hstep => ?_, fun n hn => ?_, fun data hd => ?_⟩
  · obtain ⟨reply, hrun⟩ := run_of_closes hstep c
    exact ⟨reply, by rw [hrun]⟩
  · obtain ⟨fault, hread⟩ := h.readExactly hn
    exact ⟨fault, by rw [StreamStep.run, run_reply, run_onDevice, hread]; rfl⟩
  · obtain ⟨fault, hwrite⟩ := h.writeAll hd
    exact ⟨fault, by rw [StreamStep.run, run_reply, run_onDevice, hwrite]; rfl⟩

/-- Whatever is done to a stream that has ended, it stays as it is, and so does the directory. -/
theorem Ended.kept (h : c.Ended) (hs : c.workspace.session.Sound) (steps : List StreamStep) :
    (c.after steps).stream = c.stream ∧
      (c.after steps).workspace.directory = c.workspace.directory ∧
      (c.after steps).OnlyCloses := by
  obtain ⟨s, -, hrun⟩ := h.after hs steps
  rw [hrun]
  exact ⟨rfl, rfl, onlyCloses_of_finished h.finished⟩

end Connection

/-! ## Streams as they are made -/

def Resource.IsPath (r : Resource) : Prop := ∃ path, r = .path path ∨ r = .value (.text path)

namespace Workspace

open Connection

variable {w w' : Workspace} {r : Resource} {mode : Text} {s : Stream}

/-- What a stream works on: the file of a path, which it has opened, a copy of raw bytes, or
a device of somebody else. -/
inductive Makes (w : Workspace) : Resource → Stream → Workspace → Prop where
  | path {r : Resource} {w' : Workspace} (opened : Opened) : r.IsPath →
      w'.session.cache = w.session.cache → Makes w r ⟨deviceOf opened, true⟩ w'
  | raw (b : Buffer) : Makes w (.value (.buffer b)) ⟨.memory (.ofBuffer b), false⟩ w
  | device (d : Device) : Makes w (.device d) ⟨d, false⟩ w

/-- A stream that was made is sound, and owns its device just if that is the file of a path. -/
lemma Makes.sound [Host] (h : w.Makes r s w') (hs : w.session.Sound) :
    Connection.Sound s.owned s.device.kindName ⟨w', s⟩ ∧ (s.owned = true ↔ r.IsPath) ∧
      (s.device.closed = true ↔ ∃ d, r = .device d ∧ d.closed = true) := by
  cases h with
  | path opened hr hcache =>
    have hsound : w'.session.Sound := by
      unfold Session.Sound
      rwa [hcache]
    have hopened : (deviceOf opened).file?.isSome = true ∧ (deviceOf opened).closed = false := by
      unfold deviceOf
      dsimp only
      split <;> exact ⟨rfl, rfl⟩
    refine ⟨⟨hsound, rfl, rfl, fun _ => hopened.1⟩, iff_of_true rfl hr, ?_⟩
    obtain ⟨path, rfl | rfl⟩ := hr <;> simp [hopened.2]
  | raw b =>
    have hno : ¬(Resource.value (.buffer b)).IsPath := by simp [Resource.IsPath]
    exact ⟨⟨hs, rfl, rfl, fun h => absurd h Bool.false_ne_true⟩,
      iff_of_false Bool.false_ne_true hno,
      iff_of_false (by simp [Device.closed, MemoryFile.ofBuffer]) (by simp)⟩
  | device d =>
    have hno : ¬(Resource.device d).IsPath := by simp [Resource.IsPath]
    exact ⟨⟨hs, rfl, rfl, fun h => absurd h Bool.false_ne_true⟩,
      iff_of_false Bool.false_ne_true hno, by simp⟩

end Workspace

end BinaryLayout
