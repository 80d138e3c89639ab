import BinaryLayout.Stream.Directory
import Mathlib.Data.List.Basic

/-!
# Files that are opened

What a path leads to is decided by its names. The files of a directory only decide how a path is
refused that leads nowhere, and whether there is already something where it leads. So a path
that a file was opened by leads to that file as long as it is there.
-/
namespace BinaryLayout.Directory

variable {d : Directory} {path mode : Text}

/-! ## The files of a directory -/

lemma get?_put_of_ne {name other : Bytes} (h : other ≠ name) (content : Bytes) :
    (d.put name content).get? other = d.get? other := by
  have hne : (other == name) = false := by simpa using h
  simp only [put, get?, List.lookup_cons, hne]
  induction d.files with
  | nil => rfl
  | cons entry rest ih =>
    by_cases he : entry.1 = name
    · rw [List.filter_cons_of_neg (by simp [he]), ih]
      obtain ⟨first, second⟩ := entry
      obtain rfl : first = name := he
      rw [List.lookup_cons, hne]
    · rw [List.filter_cons_of_pos (by simp [he])]
      obtain ⟨first, second⟩ := entry
      rw [List.lookup_cons, List.lookup_cons, ih]

/-! ## Where a path leads -/

/-- A path that leads somewhere leads there whatever the files are. -/
lemma walk_eq_ok {separated : Bool} {base : Bytes} {names : List Bytes} {place : Place}
    (h : d.walk path separated base names = .ok place) (d' : Directory) :
    d'.walk path separated base names = .ok place := by
  induction names generalizing base with
  | nil => exact h
  | cons name rest ih =>
    unfold walk at h ⊢
    split at h
    · next hself =>
      rw [if_pos hself]
      exact ih h
    · next hself =>
      rw [if_neg hself]
      split at h
      · next habove =>
        rw [if_pos habove]
        exact ih h
      · next habove =>
        rw [if_neg habove]
        split at h
        · next hlast =>
          rw [if_pos hlast]
          exact h
        · split at h
          · cases h
          · split at h <;> cases h

lemma resolve_eq_ok {raw : Bytes} {place : Place} (h : d.resolve path raw = .ok place)
    (d' : Directory) : d'.resolve path raw = .ok place := by
  unfold resolve at h ⊢
  split at h
  · cases h
  · next hlong =>
    rw [if_neg hlong]
    split at h
    · cases h
    · next hempty =>
      rw [if_neg hempty]
      exact walk_eq_ok h d'

/-- A file that is opened has a name of fitting length, behind which there is no separator. One
that is opened to be written is empty. -/
lemma startingContent_eq_ok {access : Access} {place : Place} {name content : Bytes}
    (h : d.startingContent path access place = .ok (name, content)) :
    ∃ base last, place = .entry base last false ∧ name = base ++ last ∧
      last.length ≤ longestName ∧ (access = .write → content = []) := by
  cases place with
  | directory => cases h
  | entry base last separated =>
    unfold startingContent at h
    by_cases hlong : longestName < last.length
    · simp only [hlong, if_true] at h
      split at h <;> cases h
    have hle := Nat.not_lt.mp hlong
    simp only [if_neg hlong] at h
    clear hlong
    refine ⟨base, last, ?_⟩
    cases separated <;> cases access <;> cases hget : d.get? (base ++ last) <;>
      simp_all [Access.creates]

/-- What is opened: the file that the path leads to, from its start or from its end. -/
inductive Opens (d : Directory) (path mode : Text) : Opened → Prop where
  | intro {m : Mode} {access : Access} {raw base last content : Bytes} :
      Mode.parse mode = .ok m → encodePath path = .ok raw → m.access? = some access →
      d.resolve path raw = .ok (.entry base last false) → last.length ≤ longestName →
      (access = .write → content = []) →
      Opens d path mode ⟨⟨base ++ last, access = .read || m.update, access ≠ .read || m.update,
          access = .append, content, false, if access = .append then content.length else 0⟩, m,
        if access = .read then d else d.put (base ++ last) content⟩

lemma bind_eq_ok {ε α β : Type} {x : Except ε α} {g : α → Except ε β} {b : β}
    (h : x >>= g = .ok b) : ∃ a, x = .ok a ∧ g a = .ok b := by
  cases x with
  | error fault => cases h
  | ok a => exact ⟨a, rfl, h⟩

theorem opens_of_openFile {opened : Opened} (h : d.openFile path mode = .ok opened) :
    d.Opens path mode opened := by
  unfold openFile at h
  obtain ⟨m, hm, h⟩ := bind_eq_ok h
  obtain ⟨raw, hraw, h⟩ := bind_eq_ok h
  cases haccess : m.access? with
  | none => rw [haccess] at h; cases h
  | some access =>
    rw [haccess] at h
    obtain ⟨place, hplace, h⟩ := bind_eq_ok h
    obtain ⟨⟨name, content⟩, hstart, h⟩ := bind_eq_ok h
    obtain ⟨base, last, rfl, rfl, hle, hwrite⟩ := startingContent_eq_ok hstart
    cases h
    have hopens := Opens.intro hm hraw haccess hplace hle hwrite
    simpa using hopens

variable {opened : Opened}

/-- The path by which a file was opened leads to it, and what is read is what the file holds. -/
theorem Opens.read (h : d.Opens path mode opened) {d' : Directory} {content : Bytes}
    (hget : d'.get? opened.handle.name = some content) : d'.read path = .ok content := by
  cases h with
  | @intro m access raw base last start hm hraw haccess hplace hle hwrite =>
    have hmode : Mode.parse "rb" = .ok ⟨some .read, false, true⟩ := by decide
    have hstart : d'.startingContent path .read (.entry base last false) =
        .ok (base ++ last, content) := by
      have hlong : ¬longestName < last.length := Nat.not_lt.mpr hle
      have hsome : d'.get? (base ++ last) = some content := hget
      simp only [startingContent, hsome, if_neg hlong, Access.creates]
      rfl
    rw [Directory.read, openFile, hmode, hraw]
    simp only [bind, Except.bind, resolve_eq_ok hplace d', hstart]
    rfl

/-- A file that is opened to be written is empty, and from now on it is there. -/
theorem Opens.write (h : d.Opens path "wb" opened) :
    opened.mode.binary = true ∧ opened.handle.writable = true ∧
      opened.handle.oversized = false ∧ opened.handle.offset = 0 ∧ opened.handle.content = [] ∧
      opened.directory = d.put opened.handle.name [] := by
  cases h with
  | intro hm hraw haccess hplace hle hwrite =>
    have hmode : Mode.parse "wb" = .ok ⟨some .write, false, true⟩ := by decide
    obtain rfl := Except.ok.inj (hmode.symm.trans hm)
    obtain rfl := Option.some.inj haccess
    obtain rfl := hwrite rfl
    exact ⟨rfl, rfl, rfl, rfl, rfl, rfl⟩

lemma exists_openFile_write {content : Bytes} (h : d.read path = .ok content) :
    ∃ opened, d.openFile path "wb" = .ok opened := by
  cases hopen : d.openFile path "rb" with
  | error fault =>
    unfold Directory.read at h
    rw [hopen] at h
    cases h
  | ok opened =>
    cases opens_of_openFile hopen with
    | @intro m access raw base last start hm hraw haccess hplace hle hwrite =>
      have hmode : Mode.parse "wb" = .ok ⟨some .write, false, true⟩ := by decide
      have hstart : d.startingContent path .write (.entry base last false) =
          .ok (base ++ last, []) := by
        simp only [startingContent, if_neg (Nat.not_lt.mpr hle), Bool.and_false,
          Bool.false_eq_true, if_false]
        cases d.get? (base ++ last) <;> rfl
      rw [openFile, hmode, hraw]
      simp only [bind, Except.bind, hplace, hstart]
      exact ⟨_, rfl⟩

end BinaryLayout.Directory
