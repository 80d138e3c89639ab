import BinaryLayout.Session
import BinaryLayout.Stream.Device
import BinaryLayout.Stream.Directory

/-!
# Streams

A stream is made of a path, of raw bytes or of a device. What it opened itself it also closes;
a device of the caller is left open. Records are read from and written to a stream whole: a
record is packed before anything is written, and exactly its bytes are read.
-/
namespace BinaryLayout

/-- What a stream can be made of. -/
inductive Resource where
  | value (v : Value)
  | path (path : Text)
  | device (d : Device)

/-- A device in use, and whether the stream has opened it. -/
structure Stream where
  device : Device
  owned : Bool

/-- What streams work in. -/
structure Workspace where
  session : Session
  directory : Directory

/-- A stream at work. -/
structure Connection where
  workspace : Workspace
  stream : Stream

/-- An operation on a stream. -/
abbrev StreamAction := ExceptT Fault (StateM Connection)

namespace Workspace

def note (w : Workspace) (records : List LogRecord) : Workspace :=
  { w with session := { w.session with log := w.session.log ++ records } }

/-- A file with a window, read as text unless it is opened as bytes. -/
def deviceOf (opened : Opened) : Device :=
  let f := BufferedFile.ofHandle opened.handle
  if opened.mode.binary then .file f else .text (.ofFile f)

/-- Open the file of a path. -/
def openPath (w : Workspace) (path mode : Text) : Attempt Workspace Stream :=
  let w := w.note [.opening path mode]
  match w.directory.openFile path mode with
  | .error fault => .refuse w (.file fault)
  | .ok opened =>
    ⟨.ok ⟨deviceOf opened, true⟩, { w with directory := opened.directory }⟩

/-- Make a stream. The mode matters for a path; raw bytes only refuse to be an output. -/
def openStream (w : Workspace) (r : Resource) (mode : Text) : Attempt Workspace Stream :=
  match r with
  | .path path | .value (.text path) => w.openPath path mode
  | .value (.buffer b) =>
    if Mode.asksForOutput mode then .refuse w .rawOutput
    else ⟨.ok ⟨.memory (.ofBuffer b), false⟩, w⟩
  | .value v => .refuse w (.notStream v.kindName)
  | .device d => ⟨.ok ⟨d, false⟩, w⟩

end Workspace

namespace Connection

variable [Host]

/-- An operation on the device of the stream. -/
def onDevice (f : Device → Attempt Device α) : StreamAction α := do
  let c ← get
  let t := f c.stream.device
  set { c with stream := { c.stream with device := t.after } }
  MonadExcept.ofExcept t.outcome

/-- An operation of the session. -/
def onSession (a : Action α) : StreamAction α := do
  let c ← get
  let (outcome, session) := a.run c.workspace.session
  set { c with workspace := { c.workspace with session := session } }
  MonadExcept.ofExcept outcome

/-- Close what the stream has opened; the content of a file goes back to the directory. -/
def close (c : Connection) : Connection :=
  if !c.stream.owned then c
  else
    let device := c.stream.device.close
    let directory := match device.file? with
      | some f => c.workspace.directory.store f.handle
      | none => c.workspace.directory
    { c with
      workspace := { c.workspace with directory := directory }
      stream := { c.stream with device := device } }

/-- Read exactly the bytes of a record, and unpack them. -/
def readPacked (descriptor : Value) : StreamAction (List Value) := do
  let f ← onSession (Session.format descriptor)
  let size ← onSession (Session.report f.size)
  let raw ← onDevice fun d => d.readExactly size
  onSession (Session.unpackFormat f raw 0)

/-- Pack a record and write all of it; the result is how many bytes it has. -/
def writePacked (descriptor : Value) (values : List Value) : StreamAction Nat := do
  let raw ← onSession (Session.pack descriptor values)
  onDevice fun d => d.writeAll raw

end Connection

/-- What can be done with a stream. -/
inductive StreamStep where
  | readExactly (n : Int)
  | writeAll (data : Bytes)
  | readPacked (descriptor : Value)
  | writePacked (descriptor : Value) (values : List Value)
  | tell
  | seek (position : Int)
  | flush
  | close
  | exit

/-- What a step gives. -/
inductive StreamReply where
  | bytes (data : Bytes)
  | count (n : Int)
  | values (values : List Value)
  | nothing
  /-- The stream itself was handed out before it was closed. -/
  | itself

/-- Do one step. -/
def StreamStep.run [Host] : StreamStep → StreamAction StreamReply
  | .readExactly n => return .bytes (← Connection.onDevice fun d => d.readExactly n)
  | .writeAll data => return .count (← Connection.onDevice fun d => d.writeAll data)
  | .readPacked descriptor => return .values (← Connection.readPacked descriptor)
  | .writePacked descriptor values =>
    return .count (← Connection.writePacked descriptor values)
  | .tell => return .count (← Connection.onDevice Device.tell)
  | .seek position => return .count (← Connection.onDevice fun d => d.seek position)
  | .flush => do
    Connection.onDevice Device.flush
    return .nothing
  | .close => do
    modify Connection.close
    return .nothing
  | .exit => do
    modify Connection.close
    return .itself

/-- What using a resource once gives: the outcome, the workspace and the resource after it. -/
structure Use (α : Type) where
  outcome : Except Fault α
  workspace : Workspace
  resource : Resource

namespace Workspace

variable [Host]

/-- A device keeps what happened to it, all else is what it was. -/
def resourceAfter (r : Resource) (s : Stream) : Resource :=
  match r with
  | .device _ => .device s.device
  | r => r

/-- Make a stream, use it and close it. -/
def withStream (w : Workspace) (r : Resource) (mode : Text) (action : StreamAction α) : Use α :=
  let opened := w.openStream r mode
  match opened.outcome with
  | .error fault => ⟨.error fault, opened.after, r⟩
  | .ok stream =>
    let (outcome, c) := action.run ⟨opened.after, stream⟩
    let closed := c.close
    ⟨outcome, closed.workspace, resourceAfter r closed.stream⟩

/-- Read a record from a resource. -/
def readPacked (w : Workspace) (r : Resource) (descriptor : Value) : Use (List Value) :=
  w.withStream r "rb" (Connection.readPacked descriptor)

/-- Write a record to a resource. -/
def writePacked (w : Workspace) (r : Resource) (descriptor : Value) (values : List Value) :
    Use Nat :=
  w.withStream r "wb" (Connection.writePacked descriptor values)

end Workspace

end BinaryLayout
