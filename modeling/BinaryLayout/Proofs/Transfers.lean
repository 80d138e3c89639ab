import BinaryLayout.Stream.Device
import Mathlib.Algebra.Order.Ring.Int
import Mathlib.Data.List.Basic

/-!
# Transfers in portions

A transfer moves its data in as many portions as it takes, and who grants them decides how large
they are. What a portion leaves over is exactly what the next one starts with. So as long as
every portion has at least one byte, all of the data arrives once and in order, whatever the
portions are, and nothing behind it is touched.
-/
namespace BinaryLayout

@[simp] lemma Bytes.overwrite_length (data raw : Bytes) :
    data.overwrite data.length raw = data ++ raw := by
  simp [overwrite, splice, zeros]

/-! ## Files that are written from their start -/

lemma Handle.write_of_end [Host] {h : Handle} (hend : h.offset = h.content.length) {chunk : Bytes}
    (hroom : (h.content ++ chunk).length ≤ Host.storage) :
    h.write chunk =
      { h with content := h.content ++ chunk, offset := (h.content ++ chunk).length } := by
  have hplace : h.place = h.content.length := by
    rw [place, hend, ite_self]
  rw [List.length_append] at hroom
  rw [write, hplace, if_neg (by omega), Bytes.overwrite_length, List.length_append]

namespace BufferedFile

/-- The file of the given name is open and writable, its handle is at the end, and the content of
the handle with the bytes in the window behind it is the given data. -/
structure Writing (f : BufferedFile) (name data : Bytes) : Prop where
  opened : f.closed = false
  named : f.handle.name = name
  writable : f.handle.writable = true
  small : f.handle.oversized = false
  ended : f.handle.offset = f.handle.content.length
  unread : f.filled? = none
  pending : f.unsaved? = none ∧ f.window = [] ∨
    f.unsaved? = some (0, f.window.length) ∧ f.cursor = f.window.length ∧ f.anchor = 0
  whole : f.handle.content ++ f.window = data

variable {f : BufferedFile} {name data chunk : Bytes}

lemma writing_ofHandle {h : Handle} (hw : h.writable = true) (hs : h.oversized = false)
    (hend : h.offset = h.content.length) : (ofHandle h).Writing h.name h.content :=
  ⟨rfl, rfl, hw, hs, hend, rfl, .inl ⟨rfl, rfl⟩, List.append_nil _⟩

/-- A chunk that has room there is put behind what is in the window. -/
lemma Writing.put (h : f.Writing name data) (hcursor : f.cursor = f.window.length)
    (hanchor : f.anchor = 0) : (f.put chunk).Writing name (data ++ chunk) := by
  obtain ⟨hopened, hnamed, hwritable, hsmall, hended, hunread, hpending, rfl⟩ := h
  have hwindow : (f.put chunk).window = f.window ++ chunk := by
    simp only [BufferedFile.put, hcursor, Bytes.overwrite_length]
  have hunsaved : (f.put chunk).unsaved? = some (0, (f.put chunk).window.length) := by
    rw [hwindow, List.length_append]
    obtain ⟨hnone, hempty⟩ | ⟨hsome, -, -⟩ := hpending
    · simp [BufferedFile.put, hnone, hcursor, hempty]
    · simp [BufferedFile.put, hsome, hcursor]
  refine ⟨hopened, hnamed, hwritable, hsmall, hended, ?_, .inr ⟨hunsaved, ?_, hanchor⟩, ?_⟩
  · simp only [BufferedFile.put, hunread, Option.map_none]
  · rw [hwindow, List.length_append, ← hcursor]
    rfl
  · rw [hwindow, ← List.append_assoc]
    rfl

section Room

variable [Host]

/-- What is in the window is passed on to the end of the file. -/
lemma Writing.save (h : f.Writing name data) (hroom : data.length ≤ Host.storage) :
    f.save.handle = { f.handle with content := data, offset := data.length } ∧
      f.save.closed = false ∧ f.save.filled? = none ∧ f.save.unsaved? = none := by
  obtain ⟨hopened, -, -, -, hended, hunread, hpending, rfl⟩ := h
  have hself : f.window = [] → f.handle = { f.handle with
      content := f.handle.content ++ f.window,
      offset := (f.handle.content ++ f.window).length } := by
    intro hwindow
    rw [hwindow, List.append_nil, ← hended]
  obtain ⟨hunsaved, hwindow⟩ | ⟨hunsaved, hcursor, hanchor⟩ := hpending
  · simp only [BufferedFile.save, hunsaved]
    exact ⟨hself hwindow, hopened, hunread, trivial⟩
  · by_cases hwindow : f.window = []
    · have hnone : f.window.length ≤ 0 := by simp [hwindow]
      simp only [BufferedFile.save, hunsaved, if_pos hnone]
      exact ⟨hself hwindow, hopened, hunread, trivial⟩
    · have hsome : ¬f.window.length ≤ 0 := by simpa using hwindow
      simp only [BufferedFile.save, hunsaved, if_neg hsome, if_pos hanchor, passOn,
        List.take_length, List.drop_zero, Handle.write_of_end hended hroom]
      exact ⟨trivial, hopened, hunread, trivial⟩

/-- Any other chunk is passed on behind what was in the window, or is alone in the window. -/
lemma Writing.putAnew (h : f.Writing name data)
    (hroom : (data ++ chunk).length ≤ Host.storage) :
    (f.putAnew chunk).Writing name (data ++ chunk) := by
  have hlength : (data ++ chunk).length = data.length + chunk.length := List.length_append
  obtain ⟨hhandle, hopened, hunread, hunsaved⟩ := h.save (by omega)
  have hlead : f.save.lead = 0 := by simp [lead, active, hunread, hunsaved]
  have hended : f.save.handle.offset = f.save.handle.content.length := by rw [hhandle]
  have hcontent : f.save.handle.content = data := by rw [hhandle]
  have hnamed : f.save.handle.name = name := by rw [hhandle]; exact h.named
  have hwritable : f.save.handle.writable = true := by rw [hhandle]; exact h.writable
  have hsmall : f.save.handle.oversized = false := by rw [hhandle]; exact h.small
  unfold BufferedFile.putAnew
  by_cases hlarge : blockSize < chunk.length
  · simp only [hlead, if_true, hlarge, decide_true, passOn]
    rw [Handle.write_of_end hended (by rw [hcontent]; exact hroom), hcontent]
    exact ⟨hopened, hnamed, hwritable, hsmall, rfl, rfl, .inr ⟨rfl, rfl, rfl⟩,
      List.append_nil _⟩
  · simp only [hlead, if_true, hlarge, decide_false, Bool.false_eq_true, if_false]
    exact ⟨hopened, hnamed, hwritable, hsmall, hended, rfl, .inr ⟨rfl, rfl, rfl⟩,
      by rw [hcontent]⟩

/-- A chunk that is written comes behind what was written before. -/
lemma Writing.write (h : f.Writing name data)
    (hroom : (data ++ chunk).length ≤ Host.storage) :
    ∃ f', f.write chunk = ⟨.ok (), f'⟩ ∧ f'.Writing name (data ++ chunk) := by
  let f₀ : BufferedFile := if f.active then f else { f with cursor := 0, anchor := 0 }
  have hstart : f₀.Writing name data ∧ f₀.cursor = f₀.window.length ∧ f₀.anchor = 0 := by
    obtain ⟨hunsaved, hwindow⟩ | ⟨hunsaved, hcursor, hanchor⟩ := h.pending
    · have hinactive : f.active = false := by simp [active, h.unread, hunsaved]
      simp only [f₀, hinactive, Bool.false_eq_true, if_false]
      exact ⟨⟨h.opened, h.named, h.writable, h.small, h.ended, h.unread,
        .inl ⟨hunsaved, hwindow⟩, h.whole⟩, by rw [hwindow]; rfl, trivial⟩
    · have hactive : f.active = true := by simp [active, hunsaved]
      simp only [f₀, hactive, if_true]
      exact ⟨h, hcursor, hanchor⟩
  obtain ⟨hwriting, hcursor, hanchor⟩ := hstart
  refine ⟨if chunk.length < blockSize ∧ f₀.cursor + chunk.length ≤ blockSize then f₀.put chunk
    else f₀.putAnew chunk, ?_, ?_⟩
  · simp only [BufferedFile.write, h.writable, h.opened, Bool.not_true, Bool.false_eq_true,
      if_false, decide_eq_true_eq, f₀]
  · split
    · exact hwriting.put hcursor hanchor
    · exact hwriting.putAnew hroom

/-- Leaving the window moves the handle and does not change the file. -/
lemma exists_handle_settle (f : BufferedFile) :
    ∃ offset, f.settle.handle = { f.save.handle with offset := offset } := by
  unfold settle
  dsimp only
  split
  · exact ⟨_, rfl⟩
  · exact ⟨f.save.handle.offset, rfl⟩

/-- A file that is closed holds all that was written. -/
lemma Writing.close (h : f.Writing name data) (hroom : data.length ≤ Host.storage) :
    f.close.handle.name = name ∧ f.close.handle.content = data ∧
      f.close.handle.writable = true ∧ f.close.handle.oversized = false := by
  obtain ⟨hhandle, -, -, -⟩ := h.save hroom
  obtain ⟨offset, hsettle⟩ := f.exists_handle_settle
  have hclose : f.close.handle = f.settle.handle := by
    simp only [BufferedFile.close, h.opened, h.writable, Bool.false_eq_true, if_false, if_true]
  rw [hclose, hsettle, hhandle]
  exact ⟨h.named, rfl, h.writable, h.small⟩

end Room

end BufferedFile

namespace Device

/-- Every portion that the schedule grants has at least one byte. -/
def Grants (schedule : List (Option ℕ)) : Prop := ∀ g ∈ schedule, ∃ k, g = some k ∧ 0 < k

lemma Grants.tail {schedule : List (Option ℕ)} (h : Grants schedule) : Grants schedule.tail :=
  fun g hg => h g (List.mem_of_mem_tail hg)

lemma granted_le (schedule : List (Option ℕ)) (request : ℕ) :
    granted schedule request ≤ request := by
  unfold granted
  split <;> omega

lemma Grants.granted_pos {schedule : List (Option ℕ)} (h : Grants schedule) {request : ℕ}
    (hr : 0 < request) : 0 < granted schedule request := by
  cases schedule with
  | nil => exact hr
  | cons g rest =>
    obtain ⟨k, rfl, hk⟩ := h g List.mem_cons_self
    exact Nat.lt_min.mpr ⟨hk, hr⟩

/-- What is at the other end of a transfer. -/
inductive Medium where
  | memory
  | source
  | sink
  | file (name : Bytes)

/-! ## Writing -/

/-- The device has taken the data and takes more behind it, up to the given length. A sink takes
any, if its schedule grants every portion. -/
inductive Takes [Host] (limit : ℕ) : Medium → Device → Bytes → Prop where
  | memory {m : MemoryFile} : m.closed = false → m.position = m.data.length →
      MemoryFile.ample limit ≤ Host.storage → Takes limit .memory (.memory m) m.data
  | sink {data : Bytes} {schedule : List (Option ℕ)} {calls : List ℕ} : Grants schedule →
      Takes limit .sink (.sink data schedule calls) data
  | file {f : BufferedFile} {name data : Bytes} : f.Writing name data →
      limit ≤ Host.storage → Takes limit (.file name) (.file f) data

section Writing

variable [Host] {limit : ℕ} {medium : Medium} {d : Device} {data chunk rest : Bytes}

/-- Of a chunk that is offered some bytes are taken, at least one. -/
lemma Takes.write (h : Takes limit medium d data) (hchunk : chunk ≠ [])
    (hroom : data.length + chunk.length ≤ limit) :
    ∃ n d', d.write chunk = ⟨.ok n, d'⟩ ∧ 0 < n ∧ n ≤ chunk.length ∧
      Takes limit medium d' (data ++ chunk.take n) := by
  have hpos := List.length_pos_iff.mpr hchunk
  cases h with
  | @memory m hopen hend hlimit =>
    have hput : m.write chunk = ⟨.ok (), m.put chunk⟩ :=
      MemoryFile.write_of_le hopen hchunk
        ((MemoryFile.grownSize_le_ample m.capacity (by omega)).trans hlimit)
    have hdata : (m.put chunk).data = m.data ++ chunk := by
      simp only [MemoryFile.put, hend, Bytes.overwrite_length]
    refine ⟨chunk.length, .memory (m.put chunk), ?_, hpos, le_refl _, ?_⟩
    · simp only [Device.write, hput]
      rfl
    · rw [List.take_length, ← hdata]
      refine .memory rfl ?_ hlimit
      rw [hdata, List.length_append, ← hend]
      rfl
  | sink hgrants =>
    exact ⟨_, _, rfl, hgrants.granted_pos hpos, granted_le _ _, .sink hgrants.tail⟩
  | file hwriting hlimit =>
    have hlength : (data ++ chunk).length ≤ Host.storage := by
      rw [List.length_append]
      omega
    obtain ⟨f', hwrite, hf'⟩ := hwriting.write hlength
    refine ⟨chunk.length, .file f', ?_, hpos, le_refl _, ?_⟩
    · simp only [Device.write, hwrite]
      rfl
    · rw [List.take_length]
      exact .file hf' hlimit

/-- All of the data is taken, in however many portions. -/
theorem Takes.writeRemaining (h : Takes limit medium d data) (total : ℕ)
    (hroom : data.length + rest.length ≤ limit) :
    ∃ d', d.writeRemaining total rest = ⟨.ok (), d'⟩ ∧ Takes limit medium d' (data ++ rest) := by
  induction hn : rest.length using Nat.strong_induction_on generalizing rest d data with
  | _ n ih =>
    rw [Device.writeRemaining]
    split
    · next hrest =>
      rw [hrest, List.append_nil]
      exact ⟨d, rfl, h⟩
    · next hrest =>
      obtain ⟨k, d', hwrite, hk, hle, htakes⟩ := h.write hrest hroom
      have hlength : (data ++ rest.take k).length + (rest.drop k).length =
          data.length + rest.length := by
        simp only [List.length_append, List.length_take, List.length_drop]
        omega
      obtain ⟨last, hlast, hall⟩ := ih (rest.drop k).length (by rw [List.length_drop]; omega)
        htakes (hlength ▸ hroom) rfl
      refine ⟨last, ?_, ?_⟩
      · simp only [hwrite, if_neg hk.ne', hlast]
      · rwa [List.append_assoc, List.take_append_drop] at hall

theorem Takes.writeAll (h : Takes limit medium d data) (hroom : data.length + rest.length ≤ limit) :
    ∃ d', d.writeAll rest = ⟨.ok rest.length, d'⟩ ∧ Takes limit medium d' (data ++ rest) := by
  obtain ⟨d', hwrite, hd'⟩ := h.writeRemaining rest.length hroom
  exact ⟨d', by rw [Device.writeAll, hwrite]; rfl, hd'⟩

end Writing

/-! ## Reading -/

/-- The device has the data, is at the given position and gives what is there. A source does if
its schedule grants every portion. -/
inductive Gives : Medium → Device → Bytes → ℕ → Prop where
  | memory {m : MemoryFile} : m.closed = false → Gives .memory (.memory m) m.data m.position
  | source {data : Bytes} {position : ℕ} {schedule : List (Option ℕ)} {calls : List ℕ} :
      Grants schedule → Gives .source (.source data position schedule calls) data position

lemma join_cons (first : Bytes) (chunks : List Chunk) :
    Chunk.join (.bytes first :: chunks) = (Chunk.join chunks).map (first ++ ·) := by
  simp only [Chunk.join, List.mapM_cons, Chunk.bytes?]
  cases chunks.mapM Chunk.bytes? <;> rfl

section Reading

variable [Host] {medium : Medium} {d : Device} {data : Bytes} {position n : ℕ}

/-- Of a request some bytes are given, at least one, and the position moves behind them. -/
lemma Gives.read (h : Gives medium d data position) (hn : 0 < n) (hsize : (n : ℤ) ≤ greatestSize)
    (hin : position + n ≤ data.length) :
    ∃ k d', d.read n = ⟨.ok (.bytes ((data.drop position).take k)), d'⟩ ∧ 0 < k ∧ k ≤ n ∧
      Gives medium d' data (position + k) := by
  have htake : ∀ k ≤ n, ((data.drop position).take k).length = k := by
    intro k hk
    rw [List.length_take, List.length_drop]
    omega
  cases h with
  | @memory m hopen =>
    have hread : m.read n =
        ⟨.ok ((m.data.drop m.position).take n), { m with position := m.position + n }⟩ := by
      rw [MemoryFile.read, if_neg (Int.not_lt.mpr hsize), if_neg (by simp [hopen])]
      simp only [htake n (le_refl n)]
    refine ⟨n, .memory { m with position := m.position + n }, ?_, hn, le_refl n, .memory hopen⟩
    simp only [Device.read, hread]
    rfl
  | @source _ _ schedule calls hgrants =>
    have hle := granted_le schedule n
    refine ⟨granted schedule n, .source data (position + granted schedule n) schedule.tail
      (calls ++ [n]), ?_, hgrants.granted_pos hn, hle, .source hgrants.tail⟩
    simp only [Device.read, htake _ hle]

/-- All of a request is given, in however many portions, and nothing behind it is read. -/
theorem Gives.readRemaining (h : Gives medium d data position) (requested : ℤ)
    (hsize : (n : ℤ) ≤ greatestSize) (hin : position + n ≤ data.length) :
    ∃ chunks d', d.readRemaining requested n = ⟨.ok chunks, d'⟩ ∧
      Chunk.join chunks = .ok ((data.drop position).take n) ∧
      Gives medium d' data (position + n) := by
  induction n using Nat.strong_induction_on generalizing d position with
  | _ n ih =>
    rw [Device.readRemaining]
    split
    · next hzero =>
      subst hzero
      exact ⟨[], d, rfl, rfl, h⟩
    · next hne =>
      obtain ⟨k, d', hread, hk, hle, hgives⟩ :=
        h.read (Nat.pos_of_ne_zero hne) hsize hin
      have hlength : (Chunk.bytes ((data.drop position).take k)).length = k := by
        simp only [Chunk.length, List.length_take, List.length_drop]
        omega
      obtain ⟨chunks, last, hlast, hjoin, hend⟩ := ih (n - k) (by omega) hgives
        (by omega) (by omega)
      refine ⟨.bytes ((data.drop position).take k) :: chunks, last, ?_, ?_, ?_⟩
      · simp only [hread, hlength, dif_neg hk.ne', hlast]
        rfl
      · rw [join_cons, hjoin, Except.map, ← List.drop_drop, ← List.take_add]
        congr 2
        omega
      · rwa [Nat.add_assoc, Nat.add_sub_cancel' hle] at hend

theorem Gives.readExactly (h : Gives medium d data position) (hsize : (n : ℤ) ≤ greatestSize)
    (hin : position + n ≤ data.length) :
    ∃ d', d.readExactly n = ⟨.ok ((data.drop position).take n), d'⟩ ∧
      Gives medium d' data (position + n) := by
  obtain ⟨chunks, d', hread, hjoin, hd'⟩ := h.readRemaining n hsize hin
  refine ⟨d', ?_, hd'⟩
  simp only [Device.readExactly, Int.toNat_natCast, hread, Except.bind, hjoin]

end Reading

end Device

end BinaryLayout
