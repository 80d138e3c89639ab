import BinaryLayout.Proofs.FailedWrites

/-!
# Steps on a stream

What a step does to a stream is said once: a closing step closes it, and any other one leaves its
device in another state and its session sound. What a run of steps keeps follows by induction. The
state of the device depends on nothing else, and it stays a device of its kind.
-/
namespace BinaryLayout

namespace Device

/-! ## What operations keep -/

section Kept

variable [Host] {P : Device → Prop} {d : Device}

/-- What every read keeps is kept when exactly so many bytes are read. -/
lemma after_readExactly (hread : ∀ d n, P d → P (d.read n).after) (h : P d) (n : ℤ) :
    P (d.readExactly n).after := by
  have hremaining : ∀ k, P (d.readRemaining n k).after := by
    intro k
    induction k using Nat.strong_induction_on generalizing d with
    | _ k ih =>
      rw [readRemaining]
      split
      · exact h
      · have hfirst := hread d k h
        dsimp only
        split
        · exact hfirst
        · next chunk _ =>
          split
          · exact hfirst
          · exact ih _ (by omega) hfirst
  exact hremaining n.toNat

/-- What every write keeps is kept when all of some data is written. -/
lemma after_writeAll (hwrite : ∀ d chunk, P d → P (d.write chunk).after) (h : P d) (data : Bytes) :
    P (d.writeAll data).after := by
  have hremaining : ∀ total rest, P (d.writeRemaining total rest).after := by
    intro total rest
    induction hn : rest.length using Nat.strong_induction_on generalizing rest d with
    | _ n ih =>
      rw [writeRemaining]
      split
      · exact h
      · next hrest =>
        have hfirst := hwrite d rest h
        have hpos := List.length_pos_iff.mpr hrest
        dsimp only
        split
        · exact hfirst
        · split
          · exact hfirst
          · exact ih _ (by rw [List.length_drop]; omega) hfirst _ rfl
  exact hremaining data.length data

end Kept

/-! ## The kind of a device -/

section Kind

variable [Host] (d : Device)

@[simp] lemma kindName_read (n : ℕ) : (d.read n).after.kindName = d.kindName := by
  cases d <;> rfl

@[simp] lemma kindName_write (chunk : Bytes) : (d.write chunk).after.kindName = d.kindName := by
  cases d <;> rfl

@[simp] lemma kindName_tell : d.tell.after.kindName = d.kindName := by
  cases d <;> rfl

@[simp] lemma kindName_seek (position : ℤ) : (d.seek position).after.kindName = d.kindName := by
  cases d <;> rfl

@[simp] lemma kindName_flush : d.flush.after.kindName = d.kindName := by
  cases d <;> rfl

@[simp] lemma kindName_readExactly (n : ℤ) : (d.readExactly n).after.kindName = d.kindName :=
  after_readExactly (P := fun d' => d'.kindName = d.kindName)
    (fun d' k h => (d'.kindName_read k).trans h) rfl n

@[simp] lemma kindName_writeAll (data : Bytes) : (d.writeAll data).after.kindName = d.kindName :=
  after_writeAll (P := fun d' => d'.kindName = d.kindName)
    (fun d' chunk h => (d'.kindName_write chunk).trans h) rfl data

end Kind

def InMemory (d : Device) : Prop := ∃ m, d = .memory m

lemma inMemory_iff (d : Device) : d.InMemory ↔ d.kindName = "BytesIO" := by
  cases d with
  | memory m => exact ⟨fun _ => rfl, fun _ => ⟨m, rfl⟩⟩
  | source | sink | file | text =>
    simp [InMemory, kindName]

end Device

/-! ## One step -/

namespace StreamStep

def Closes : StreamStep → Prop
  | .close | .exit => True
  | _ => False

/-- What the step leaves of the device, if it does not close the stream. The size of a record is
known before it is read, and its bytes before they are written. -/
def deviceAfter [Host] (d : Device) : StreamStep → Device
  | .readExactly n => (d.readExactly n).after
  | .writeAll data => (d.writeAll data).after
  | .readPacked v =>
    match (Session.formatOf v).bind Format.size with
    | .error _ => d
    | .ok n => (d.readExactly n).after
  | .writePacked v values =>
    match Session.packAs v values with
    | .error _ => d
    | .ok raw => (d.writeAll raw).after
  | .tell => d.tell.after
  | .seek position => (d.seek position).after
  | .flush => d.flush.after
  | .close | .exit => d

/-- The data that the step has written to the device, if it comes to that. -/
def written? [Host] : StreamStep → Option Bytes
  | .writeAll data => some data
  | .writePacked v values => (Session.packAs v values).toOption
  | _ => none

variable [Host] (step : StreamStep) (d : Device)

/-- A step leaves of the device what one operation leaves of it, if any was come to. -/
lemma deviceAfter_cases {P : Option Bytes → Device → Prop} (hkept : P none d)
    (hread : ∀ n, P none (d.readExactly n).after)
    (hwritten : ∀ data, P (some data) (d.writeAll data).after) (htell : P none d.tell.after)
    (hseek : ∀ position, P none (d.seek position).after) (hflush : P none d.flush.after) :
    P step.written? (step.deviceAfter d) := by
  cases step with
  | readExactly n => exact hread n
  | writeAll data => exact hwritten data
  | readPacked v =>
    rw [deviceAfter]
    split
    · exact hkept
    · exact hread _
  | writePacked v values =>
    rw [written?, deviceAfter]
    cases Session.packAs v values with
    | error fault => exact hkept
    | ok raw => exact hwritten raw
  | tell => exact htell
  | seek position => exact hseek position
  | flush => exact hflush
  | close | exit => exact hkept

lemma kindName_deviceAfter : (step.deviceAfter d).kindName = d.kindName :=
  step.deviceAfter_cases d (P := fun _ d' => d'.kindName = d.kindName) rfl d.kindName_readExactly
    d.kindName_writeAll d.kindName_tell d.kindName_seek d.kindName_flush

end StreamStep

namespace Connection

lemma run_reply {α : Type} (x : StreamAction α) (g : α → StreamReply) (c : Connection) :
    (x >>= fun a => pure (g a)).run.run c = ((x.run.run c).1.map g, (x.run.run c).2) := by
  rw [run_bind]
  rcases x.run.run c with ⟨fault | a, c'⟩ <;> rfl

variable [Host] {c : Connection} {step : StreamStep} {v : Value}

/-- Nothing is read for what is no descriptor, or for a record whose size is refused. -/
lemma run_readPacked_of_error (hs : c.workspace.session.Sound) {fault : Fault}
    (h : (Session.formatOf v).bind Format.size = .error fault) :
    ∃ s : Session, s.Sound ∧
      (readPacked v).run.run c = (.error fault, c.moved s c.stream.device) := by
  obtain ⟨hformat, hsound⟩ := Session.run_formatOf hs v
  cases hv : Session.formatOf v with
  | error other =>
    rw [hv] at h hformat
    cases h
    exact ⟨_, hsound, by rw [readPacked, run_bind, run_onSession, hformat]⟩
  | ok f =>
    rw [hv] at h hformat
    have hsize : f.size = .error fault := h
    have hreport : ∀ s : Session, ((Session.report f.size).run.run s).1 = .error fault := by
      intro s
      rw [hsize]
      rfl
    refine ⟨_, Session.keeps_report f.size _ hsound, ?_⟩
    rw [readPacked, run_bind, run_onSession, hformat]
    simp only [run_bind, run_onSession, hreport, session_moved, device_moved, moved_moved]

lemma close_of_not_owned (h : c.stream.owned = false) : c.close = c := by
  simp only [close, h, Bool.not_false, if_true]

lemma run_of_closes (h : step.Closes) (c : Connection) :
    ∃ reply, step.run.run.run c = (.ok reply, c.close) := by
  cases step with
  | close => exact ⟨.nothing, rfl⟩
  | exit => exact ⟨.itself, rfl⟩
  | readExactly | writeAll | readPacked | writePacked | tell | seek | flush => cases h

lemma run_readPacked_after (hs : c.workspace.session.Sound) (v : Value) :
    ∃ s : Session, s.Sound ∧ ((readPacked v).run.run c).2 =
      c.moved s ((StreamStep.readPacked v).deviceAfter c.stream.device) := by
  rw [StreamStep.deviceAfter]
  cases hsize : (Session.formatOf v).bind Format.size with
  | error fault =>
    obtain ⟨s, hsound, hrun⟩ := run_readPacked_of_error hs hsize
    exact ⟨s, hsound, by rw [hrun]⟩
  | ok n =>
    cases hf : Session.formatOf v with
    | error fault => rw [hf] at hsize; cases hsize
    | ok f =>
      rw [hf] at hsize
      obtain ⟨s, hsound, hrun⟩ := run_readPacked_eq hs hf hsize
      exact ⟨s, hsound, by rw [hrun]⟩

lemma run_writePacked_after (hs : c.workspace.session.Sound) (v : Value) (values : List Value) :
    ∃ s : Session, s.Sound ∧ ((writePacked v values).run.run c).2 =
      c.moved s ((StreamStep.writePacked v values).deviceAfter c.stream.device) := by
  rw [StreamStep.deviceAfter]
  cases hpack : Session.packAs v values with
  | error fault =>
    obtain ⟨s, hsound, hrun⟩ := run_writePacked_of_error hs hpack
    exact ⟨s, hsound, by rw [hrun]⟩
  | ok raw =>
    obtain ⟨s, hsound, hrun⟩ := run_writePacked_eq hs hpack
    exact ⟨s, hsound, by rw [hrun]⟩

/-- A step that does not close the stream changes the device and the session. -/
theorem run_of_not_closes (hs : c.workspace.session.Sound) (h : ¬step.Closes) :
    ∃ s : Session, s.Sound ∧
      (step.run.run.run c).2 = c.moved s (step.deviceAfter c.stream.device) := by
  have hdevice : ∀ {α : Type} (f : Device → Attempt Device α) (g : α → StreamReply),
      ((onDevice f >>= fun a => pure (g a)).run.run c).2 =
        c.moved c.workspace.session (f c.stream.device).after := by
    intro α f g
    rw [run_reply, run_onDevice]
  cases step with
  | readExactly n => exact ⟨_, hs, hdevice _ _⟩
  | writeAll data => exact ⟨_, hs, hdevice _ _⟩
  | tell => exact ⟨_, hs, hdevice _ _⟩
  | seek position => exact ⟨_, hs, hdevice _ _⟩
  | flush => exact ⟨_, hs, hdevice _ _⟩
  | readPacked v =>
    rw [StreamStep.run, run_reply]
    exact run_readPacked_after hs v
  | writePacked v values =>
    rw [StreamStep.run, run_reply]
    exact run_writePacked_after hs v values
  | close | exit => exact absurd trivial h

/-! ## Runs -/

/-- The connection after some steps, whether they succeed or not. -/
def after (c : Connection) (steps : List StreamStep) : Connection :=
  ((each StreamStep.run steps).run c).2

lemma after_cons (c : Connection) (step : StreamStep) (steps : List StreamStep) :
    c.after (step :: steps) = (step.run.run.run c).2.after steps := by
  rw [after, run_each_cons]
  rfl

end Connection

end BinaryLayout
