import BinaryLayout.Proofs.RawStreams

/-!
# Closed files

No operation closes a file but closing it, with one exception: a file in memory whose own storage
cannot grow is lost with its storage. A file that was opened by its path refuses everything once it
is closed and does not change any more, and neither does its content when it is closed again.
-/
namespace BinaryLayout

namespace Attempt

variable {σ τ α β : Type} {a : Attempt σ α} {s : σ}

/-- What the first part of an operation leaves and the second part keeps holds afterwards. -/
lemma after_andThen {P : σ → Prop} {g : α → σ → Attempt σ β} (ha : P a.after)
    (hg : ∀ x s, P s → P (g x s).after) : P (a.andThen g).after := by
  unfold andThen
  split
  · exact hg _ _ ha
  · exact ha

/-- The operation is refused and leaves the state as it was. -/
def Refuses (a : Attempt σ α) (s : σ) : Prop := ∃ fault, a = .refuse s fault

lemma refuses_refuse (s : σ) (fault : Fault) : (refuse s fault : Attempt σ α).Refuses s :=
  ⟨fault, rfl⟩

lemma Refuses.after (h : a.Refuses s) : a.after = s := by
  obtain ⟨fault, rfl⟩ := h
  rfl

lemma Refuses.map (h : a.Refuses s) (g : α → β) : (a.map g).Refuses s := by
  obtain ⟨fault, rfl⟩ := h
  exact ⟨fault, rfl⟩

lemma Refuses.within (h : a.Refuses s) (g : σ → τ) : (a.within g).Refuses (g s) := by
  obtain ⟨fault, rfl⟩ := h
  exact ⟨fault, rfl⟩

lemma Refuses.andThen (h : a.Refuses s) (g : α → σ → Attempt σ β) : (a.andThen g).Refuses s := by
  obtain ⟨fault, rfl⟩ := h
  exact ⟨fault, rfl⟩

end Attempt

/-! ## Files with a window -/

namespace BufferedFile

variable (f : BufferedFile)

@[simp] lemma closed_readBlock (n : ℕ) : (f.readBlock n).2.closed = f.closed := by
  unfold readBlock
  dsimp only
  split
  · rfl
  · split <;> rfl

@[simp] lemma closed_readThrough (n : ℕ) : (f.readThrough n).2.closed = f.closed := by
  unfold readThrough
  dsimp only
  split <;> split
  · rfl
  · exact closed_readBlock _ _
  · rfl
  · exact closed_readBlock _ _

@[simp] lemma closed_tell : f.tell.after.closed = f.closed := by
  unfold tell
  split <;> rfl

variable [Host]

@[simp] lemma closed_save : f.save.closed = f.closed := by
  unfold save
  split
  · rfl
  · split
    · rfl
    · dsimp only [passOn]
      split <;> rfl

@[simp] lemma closed_settle : f.settle.closed = f.closed := by
  unfold settle
  dsimp only
  split
  · exact f.closed_save
  · exact f.closed_save

@[simp] lemma closed_settleToRead : f.settleToRead.closed = f.closed := by
  unfold settleToRead
  dsimp only
  split
  · exact f.closed_settle
  · rfl

@[simp] lemma closed_read (n : ℕ) : (f.read n).after.closed = f.closed := by
  unfold read
  split
  · rfl
  split
  · rfl
  split
  · rfl
  split
  · rfl
  split
  · rfl
  · dsimp only
    rw [closed_readThrough, closed_settleToRead]
    rfl

@[simp] lemma closed_readSigned (n : ℤ) : (f.readSigned n).after.closed = f.closed := by
  unfold readSigned
  split
  · rfl
  split
  · exact f.closed_read n.toNat
  split
  · unfold readAll
    split
    · rfl
    · exact closed_settleToRead _
  · rfl

@[simp] lemma closed_readOnce (n : ℕ) : (f.readOnce n).after.closed = f.closed := by
  unfold readOnce
  split
  · rfl
  split
  · rfl
  · exact f.closed_settleToRead

@[simp] lemma closed_seek (position : ℤ) : (f.seek position).after.closed = f.closed := by
  unfold seek
  split
  · rfl
  split
  · rfl
  dsimp only
  split
  · rfl
  · unfold seekAway
    dsimp only
    split <;> split <;> first | rfl | exact f.closed_save

@[simp] lemma closed_flush : f.flush.after.closed = f.closed := by
  unfold flush
  split
  · split
    · rfl
    · exact f.closed_settle
  · split <;> rfl

section Refused

variable {f} (hf : f.closed = true)

include hf

lemma refuses_read (n : ℕ) : (f.read n).Refuses f := by
  unfold read
  rw [if_pos hf]
  split
  · exact Attempt.refuses_refuse _ _
  · split <;> exact Attempt.refuses_refuse _ _

lemma refuses_write (chunk : Bytes) : (f.write chunk).Refuses f := by
  unfold write
  rw [if_pos hf]
  split <;> exact Attempt.refuses_refuse _ _

omit [Host] in
lemma refuses_tell : f.tell.Refuses f := by
  rw [tell, if_pos hf]
  exact Attempt.refuses_refuse _ _

lemma refuses_seek (position : ℤ) : (f.seek position).Refuses f := by
  rw [seek, if_pos hf]
  exact Attempt.refuses_refuse _ _

lemma refuses_flush : f.flush.Refuses f := by
  unfold flush
  rw [if_pos hf, if_pos hf]
  split <;> exact Attempt.refuses_refuse _ _

lemma close_of_closed : f.close = f := by
  rw [close, if_pos hf]

end Refused

end BufferedFile

/-! ## Text files -/

namespace TextFile

variable (t : TextFile)

lemma closed_andThen {α β : Type} {a : Attempt TextFile α} {g : α → TextFile → Attempt TextFile β}
    (ha : a.after.file.closed = t.file.closed)
    (hg : ∀ x u, u.file.closed = t.file.closed → (g x u).after.file.closed = t.file.closed) :
    (a.andThen g).after.file.closed = t.file.closed :=
  Attempt.after_andThen (P := fun u : TextFile => u.file.closed = t.file.closed) ha hg

@[simp] lemma closed_take (n : ℕ) : (t.take n).after.file.closed = t.file.closed := by
  unfold take
  split
  · rfl
  · split <;> rfl

variable [Host]

@[simp] lemma closed_drawChunk (d : TextDecoder) (missing : ℕ) :
    (t.drawChunk d missing).after.file.closed = t.file.closed := by
  have hread := t.file.closed_readOnce (t.request missing)
  unfold drawChunk
  dsimp only
  split
  · exact hread
  · split <;> exact hread

lemma closed_readChunks (fuel missing : ℕ) :
    (readChunks fuel missing t).after.file.closed = t.file.closed := by
  induction fuel generalizing missing t with
  | zero => rfl
  | succ fuel ih =>
    unfold readChunks
    split
    · rfl
    split
    · rfl
    refine t.closed_andThen (closed_drawChunk t _ _) fun more u hu => ?_
    split
    · refine t.closed_andThen ((closed_take u _).trans hu) fun taken v hv => ?_
      exact (ih v _).trans hv
    · exact hu

@[simp] lemma closed_read (n : ℕ) : (t.read n).after.file.closed = t.file.closed := by
  unfold read
  split
  · rfl
  split
  · rfl
  split
  · rfl
  · refine t.closed_andThen (closed_take t n) fun first u hu => ?_
    exact (closed_readChunks u _ _).trans hu

@[simp] lemma closed_flush : t.flush.after.file.closed = t.file.closed := by
  unfold flush
  split
  · rfl
  · exact t.file.closed_flush

@[simp] lemma closed_tell : t.tell.after.file.closed = t.file.closed := by
  refine t.closed_andThen (closed_flush t) fun _ u hu => ?_
  refine t.closed_andThen (u.file.closed_tell.trans hu) fun offset v hv => ?_
  split <;> exact hv

lemma closed_replay (m : TextMark) : (t.replay m).after.file.closed = t.file.closed := by
  refine t.closed_andThen (t.file.closed_readSigned _) fun chunk u hu => ?_
  dsimp only
  split
  · exact hu
  · split <;> exact hu

@[simp] lemma closed_seek (position : ℤ) : (t.seek position).after.file.closed = t.file.closed := by
  unfold seek
  split
  · rfl
  split
  · rfl
  refine t.closed_andThen (closed_flush t) fun _ u hu => ?_
  by_cases hbound : TextMark.bound ≤ position.toNat
  · rw [if_pos hbound]
    exact hu
  · rw [if_neg hbound]
    generalize TextMark.ofNat position.toNat = m
    refine t.closed_andThen ((u.file.closed_seek _).trans hu) fun _ v hv => ?_
    split
    · exact hv
    · exact (closed_replay _ _).trans hv

section Refused

variable {t} (ht : t.file.closed = true)

include ht

lemma refuses_read (n : ℕ) : (t.read n).Refuses t := by
  unfold read
  rw [if_pos ht]
  split <;> exact Attempt.refuses_refuse _ _

lemma refuses_flush : t.flush.Refuses t := by
  rw [flush, if_pos ht]
  exact Attempt.refuses_refuse _ _

lemma refuses_tell : t.tell.Refuses t := (refuses_flush ht).andThen _

lemma refuses_seek (position : ℤ) : (t.seek position).Refuses t := by
  rw [seek, if_pos ht]
  exact Attempt.refuses_refuse _ _

lemma close_of_closed : t.close = t := by
  rw [close, BufferedFile.close_of_closed ht]

end Refused

end TextFile

/-! ## Files in memory -/

namespace MemoryFile

variable (m : MemoryFile)

@[simp] lemma closed_read (n : ℕ) : (m.read n).after.closed = m.closed := by
  unfold read
  split
  · rfl
  · split <;> rfl

@[simp] lemma closed_tell : m.tell.after.closed = m.closed := by
  unfold tell
  split <;> rfl

@[simp] lemma closed_seek (position : ℤ) : (m.seek position).after.closed = m.closed := by
  unfold seek
  split
  · rfl
  · split
    · rfl
    · split <;> rfl

@[simp] lemma closed_flush : m.flush.after.closed = m.closed := by
  unfold flush
  split <;> rfl

variable [Host]

/-- Writing the chunk loses the storage of the file: it is the file's own and has to grow, and there
is no storage of the size that it has to grow to. -/
structure LosesStorage (m : MemoryFile) (chunk : Bytes) : Prop where
  opened : m.closed = false
  own : m.shared = false
  some : chunk ≠ []
  grows : m.capacity < m.position + chunk.length
  counted : ((m.position + chunk.length : ℕ) : ℤ) ≤ greatestSize
  refused : Host.storage < grownSize m.capacity (m.position + chunk.length)

end MemoryFile

/-! ## Devices -/

namespace Device

/-- The device is a file that is closed; sources and sinks never are. -/
def closed : Device → Bool
  | .memory m => m.closed
  | .file f => f.closed
  | .text t => t.file.closed
  | _ => false

section Closed

variable [Host] (d : Device)

@[simp] lemma closed_read (n : ℕ) : (d.read n).after.closed = d.closed := by
  cases d with
  | memory m => exact m.closed_read n
  | file f => exact f.closed_read n
  | text t => exact t.closed_read n
  | source | sink => rfl

@[simp] lemma closed_tell : d.tell.after.closed = d.closed := by
  cases d with
  | memory m => exact m.closed_tell
  | file f => exact f.closed_tell
  | text t => exact t.closed_tell
  | source | sink => rfl

@[simp] lemma closed_seek (position : ℤ) : (d.seek position).after.closed = d.closed := by
  cases d with
  | memory m => exact m.closed_seek position
  | file f => exact f.closed_seek position
  | text t => exact t.closed_seek position
  | source | sink => rfl

@[simp] lemma closed_flush : d.flush.after.closed = d.closed := by
  cases d with
  | memory m => exact m.closed_flush
  | file f => exact f.closed_flush
  | text t => exact t.closed_flush
  | source | sink => rfl

variable {d}

/-- Writing all of some data loses the storage of the device. -/
def LosesStorage (d : Device) (data : Bytes) : Prop := ∃ m, d = .memory m ∧ m.LosesStorage data

end Closed

/-! ## Files that were opened by their path -/

lemma isSome_file?_iff (d : Device) :
    d.file?.isSome = true ↔ d.kindName = "BufferedRandom" ∨ d.kindName = "TextIOWrapper" := by
  cases d <;> simp [file?, kindName]

/-- The device is a file with a window, used as bytes or as text, that is closed. -/
structure Finished (d : Device) : Prop where
  isFile : d.file?.isSome = true
  closed : d.closed = true

namespace Finished

variable [Host] {d : Device}

lemma refuses_read (h : d.Finished) (n : ℕ) : (d.read n).Refuses d := by
  obtain ⟨hfile, hclosed⟩ := h
  cases d with
  | file f => exact ((BufferedFile.refuses_read hclosed n).map _).within _
  | text t => exact ((TextFile.refuses_read hclosed n).map _).within _
  | memory | source | sink => cases hfile

lemma refuses_write (h : d.Finished) (chunk : Bytes) : (d.write chunk).Refuses d := by
  obtain ⟨hfile, hclosed⟩ := h
  cases d with
  | file f => exact ((BufferedFile.refuses_write hclosed chunk).map _).within _
  | text t => exact Attempt.refuses_refuse _ _
  | memory | source | sink => cases hfile

lemma refuses_tell (h : d.Finished) : d.tell.Refuses d := by
  obtain ⟨hfile, hclosed⟩ := h
  cases d with
  | file f => exact (BufferedFile.refuses_tell hclosed).within _
  | text t => exact (TextFile.refuses_tell hclosed).within _
  | memory | source | sink => cases hfile

lemma refuses_seek (h : d.Finished) (position : ℤ) : (d.seek position).Refuses d := by
  obtain ⟨hfile, hclosed⟩ := h
  cases d with
  | file f => exact (BufferedFile.refuses_seek hclosed position).within _
  | text t => exact (TextFile.refuses_seek hclosed position).within _
  | memory | source | sink => cases hfile

lemma refuses_flush (h : d.Finished) : d.flush.Refuses d := by
  obtain ⟨hfile, hclosed⟩ := h
  cases d with
  | file f => exact (BufferedFile.refuses_flush hclosed).within _
  | text t => exact (TextFile.refuses_flush hclosed).within _
  | memory | source | sink => cases hfile

lemma close (h : d.Finished) : d.close = d := by
  obtain ⟨hfile, hclosed⟩ := h
  cases d with
  | file f => exact congrArg Device.file (BufferedFile.close_of_closed hclosed)
  | text t => exact congrArg Device.text (TextFile.close_of_closed hclosed)
  | memory | source | sink => cases hfile

lemma after_readExactly (h : d.Finished) (n : ℤ) : (d.readExactly n).after = d := by
  refine Device.after_readExactly (P := fun d' => d' = d) (fun d' k hd' => ?_) rfl n
  subst hd'
  exact (h.refuses_read k).after

lemma after_writeAll (h : d.Finished) (data : Bytes) : (d.writeAll data).after = d := by
  refine Device.after_writeAll (P := fun d' => d' = d) (fun d' chunk hd' => ?_) rfl data
  subst hd'
  exact (h.refuses_write chunk).after

lemma readExactly (h : d.Finished) {n : ℤ} (hn : 0 < n) :
    ∃ fault, (d.readExactly n).outcome = .error fault := by
  obtain ⟨fault, hread⟩ := h.refuses_read n.toNat
  have hpos : n.toNat ≠ 0 := by omega
  refine ⟨fault, ?_⟩
  rw [Device.readExactly, readRemaining, if_neg hpos, hread]
  rfl

lemma writeAll (h : d.Finished) {data : Bytes} (hd : data ≠ []) :
    ∃ fault, (d.writeAll data).outcome = .error fault := by
  obtain ⟨fault, hwrite⟩ := h.refuses_write data
  exact ⟨fault, by rw [writeAll_of_refused hd hwrite]⟩

end Finished

end Device

/-! ## Directories -/

end BinaryLayout
