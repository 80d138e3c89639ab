import BinaryLayout.Stream.Handle
import BinaryLayout.Stream.Mode
import BinaryLayout.Stream.Pathname

/-!
# Directories of files

A flat directory of named files, and where a path leads to that starts there. A name may be one
that the directory itself or the one above it has, and a path may end with a separator, which
only a directory's may. Files outside have the names that lead to them.
-/
namespace BinaryLayout

/-- Files by name. -/
structure Directory where
  files : List (Bytes × Bytes)
  /-- There is a file that holds more than its content here. -/
  oversized : Bool
  deriving DecidableEq, Repr

/-- What a path leads to. -/
inductive Place where
  | directory
  /-- What has this name behind the names that lead to its directory. A separator after it says
  that it is the name of a directory. -/
  | entry (base name : Bytes) (separated : Bool)
  deriving DecidableEq, Repr

/-- An opened file and the directory, where a file that is made exists from now on. -/
structure Opened where
  handle : Handle
  mode : Mode
  directory : Directory

namespace Directory

def get? (d : Directory) (name : Bytes) : Option Bytes := d.files.lookup name

def put (d : Directory) (name content : Bytes) : Directory :=
  { d with files := (name, content) :: d.files.filter fun entry => entry.1 ≠ name }

@[simp] theorem get?_put_self (d : Directory) (name content : Bytes) :
    (d.put name content).get? name = some content := by
  simp [put, get?]

/-- A directory of the files with the given names, those without a form in bytes left out. -/
def ofFiles (files : List (Text × Bytes)) : Directory :=
  ⟨files.filterMap fun f => (Pathname.encode f.1).toOption.map fun name => (name, f.2), false⟩

/-- The files that are in the directory itself, if there is memory for them. -/
def contents (d : Directory) : Except Fault (List (Text × Bytes)) :=
  if d.oversized then .error .outOfMemory
  else
    .ok ((d.files.filter fun entry => !entry.1.contains Pathname.separator).map fun entry =>
      (Pathname.decode entry.1, entry.2))

/-- The most bytes of a name. -/
def longestName : Nat := 255

/-- The most bytes of a path. -/
def longestPath : Nat := 4095

/-- The name that leads to the directory above, from one that is reached by the given name. -/
def above (base : Bytes) : Bytes :=
  if base = [Pathname.separator] then base else base ++ [0x2E, 0x2E, Pathname.separator]

/-- Go from name to name. All but the last one have to be names of directories. -/
def walk (d : Directory) (path : Text) (separated : Bool) (base : Bytes) :
    List Bytes → Except FileFault Place
  | [] => .ok .directory
  | name :: rest =>
    if name = [0x2E] then d.walk path separated base rest
    else if name = [0x2E, 0x2E] then d.walk path separated (above base) rest
    else if rest.isEmpty then .ok (.entry base name separated)
    else if longestName < name.length then .error (.nameTooLong path)
    else if (d.get? (base ++ name)).isSome then .error (.notDirectory path)
    else .error (.notFound path)

/-- What a path leads to; `raw` are its bytes. -/
def resolve (d : Directory) (path : Text) (raw : Bytes) : Except FileFault Place :=
  if longestPath < raw.length then .error (.nameTooLong path)
  else if raw.isEmpty then .error (.notFound path)
  else
    let base := if raw.head? = some Pathname.separator then [Pathname.separator] else []
    let names := (Pathname.splitOn Pathname.separator raw).filter (!·.isEmpty)
    d.walk path (raw.getLast? = some Pathname.separator) base names

/-- The name of the file that is opened at a place, and what it holds at first. -/
def startingContent (d : Directory) (path : Text) (access : Access) :
    Place → Except FileFault (Bytes × Bytes)
  | .directory =>
    .error (if access = .create then .alreadyExists path else .isDirectory path)
  | .entry base last separated =>
    let name := base ++ last
    if access.creates && separated then .error (.isDirectory path)
    else if longestName < last.length then .error (.nameTooLong path)
    else
      match d.get? name, access with
      | some _, .create => .error (.alreadyExists path)
      | some _, .write => .ok (name, [])
      | some content, _ =>
        if separated then .error (.notDirectory path) else .ok (name, content)
      | none, .read => .error (.notFound path)
      | none, _ => .ok (name, [])

/-- The bytes of a path, which hold no zero. -/
def encodePath (path : Text) : Except FileFault Bytes := do
  let raw ← (Pathname.encode path).mapError .unencodable
  if raw.contains 0 then .error .nullByte else return raw

/-- Open a file by a mode. -/
def openFile (d : Directory) (path mode : Text) : Except FileFault Opened := do
  let m ← Mode.parse mode
  let raw ← encodePath path
  match m.access? with
  | none => .error .noMode
  | some access =>
    let place ← d.resolve path raw
    let (name, content) ← d.startingContent path access place
    let reads : Bool := access = .read
    let appends : Bool := access = .append
    return ⟨⟨name, reads || m.update, !reads || m.update, appends, content, false,
        if appends then content.length else 0⟩, m, if reads then d else d.put name content⟩

def read (d : Directory) (path : Text) : Except FileFault Bytes :=
  (d.openFile path (Text.ofString "rb")).map (·.handle.content)

/-- The directory with what was written to a file. -/
def store (d : Directory) (h : Handle) : Directory :=
  if h.writable then { d.put h.name h.content with oversized := d.oversized || h.oversized }
  else d

theorem get?_store {h : Handle} (hw : h.writable = true) (d : Directory) :
    (d.store h).get? h.name = some h.content := by
  simp only [store, hw, if_true]
  exact get?_put_self d h.name h.content

end Directory

end BinaryLayout
