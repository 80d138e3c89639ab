import BinaryLayout.Cache
import BinaryLayout.Field.Raw
import BinaryLayout.Layout
import BinaryLayout.Log
import BinaryLayout.Packing
import BinaryLayout.Unpacking

/-!
# Sessions

A session keeps the cache of compiled formats and the log. The operations here take a descriptor
as a value, which is a text to compile or a format already, and leave their records in the log;
what they compute is what the operations on formats compute.
-/
namespace BinaryLayout

/-- What operations share. -/
structure Session where
  cache : Cache
  log : List LogRecord

/-- An operation of a session, which may fail and keeps its effects when it does. -/
abbrev Action := ExceptT Fault (StateM Session)

namespace Session

def empty : Session := ⟨.empty, []⟩

def note (records : List LogRecord) : StateM Session Unit :=
  modify fun s => { s with log := s.log ++ records }

/-- A computed outcome, with the records that go with its fault. -/
def report (outcome : Except Fault α) : Action α :=
  match outcome with
  | .ok a => pure a
  | .error fault => do
    note fault.records
    throw fault

/-- Compile a text, or find it compiled. -/
def compileText (descriptor : Text) : Action Compiled := do
  let s ← get
  match s.cache.lookUp descriptor with
  | .hit entry cache =>
    set { s with cache := cache }
    return entry
  | .compiled entry cache =>
    set { s with cache := cache, log := s.log ++ [LogRecord.compiled entry.format] }
    return entry
  | .failed fault cache =>
    set { s with cache := cache }
    throw fault

/-- Compile a value, which must be a text. -/
def compile : Value → Action Compiled
  | .text descriptor => compileText descriptor
  | v => throw (.descriptorKind v.kindName)

/-- The format of a value: itself, or the compiled text. -/
def format : Value → Action Format
  | .format f => return f
  | v => return (← compile v).format

/-- The faults that a descriptor is found not to be valid by. -/
def refusesDescriptor : Fault → Bool
  | .descriptorKind _ | .zeroCount _ _ | .unexpectedCharacter _ _ => true
  | _ => false

/-- The value is a descriptor that can be compiled. -/
def isValid (v : Value) : Action Bool :=
  tryCatch (do let _ ← compile v; return true) fun fault =>
    if refusesDescriptor fault then return false else throw fault

def size (v : Value) : Action Int := do report (← format v).size

/-- The tokens at their places from an offset on. -/
def placements (v : Value) (offset : Int) : Action (List Placement) := do
  report ((← format v).placements offset)

def layout (v : Value) : Action (List FieldLayout) := do report (← format v).layout

def arity (v : Value) : Action Nat := do report (← format v).arity

/-- The bytes of one element, logged when they are refused. -/
def encode (s : Specifier) (v : Value) (order : ByteOrder) : Action Bytes :=
  report (Field.encode s v order)

/-- The value of one element, logged when it is refused. -/
def decode (s : Specifier) (raw : Value) (order : ByteOrder) : Action Value :=
  report (Field.decodeRaw s raw order)

def encodeString (v : Value) (width : Int) : Action Bytes :=
  report (Field.encodeString v width)

def decodeString [Host] (raw : Value) : Action Text := do
  report (Field.decodeString (← report (Field.rawBytes raw)))

def bits [Host] [BitText] (raw : Value) : Action Text := do
  return BitText.ofBytes (← report (Field.rawBytes raw))

/-- The buffer of a value that is read from or written to. -/
def buffer (v : Value) : Except Fault Buffer :=
  match v.buffer? with
  | some b => .ok b
  | none => .error (.notBuffer v.kindName)

/-- The record of values that were left over, if there were any. -/
def surplusRecords (f : Format) (surplus : Nat) : List LogRecord :=
  if surplus = 0 then [] else [.ignored f surplus]

/-- The records of packing at an offset. -/
def packRecords (f : Format) (offset : Int) (surplus : Nat) (outcome : Except Fault Nat) :
    List LogRecord :=
  surplusRecords f surplus ++
    match outcome with
    | .ok fields => [.packed fields f offset]
    | .error fault => fault.records

/-- Pack values into a record of its own. -/
def packFormat [Host] (f : Format) (values : List Value) : Action Bytes := do
  let record ← report (f.pack values)
  note (packRecords f 0 record.surplus (.ok record.fields))
  return record.data

/-- Pack values into a record of its own. -/
def pack [Host] (descriptor : Value) (values : List Value) : Action Bytes := do
  packFormat (← format descriptor) values

/-- Unpack the record at an offset of some data. -/
def unpackFormat (f : Format) (data : Bytes) (offset : Int) : Action (List Value) := do
  let values ← report (f.unpackFrom data offset)
  note [.unpacked values.length f offset]
  return values

/-- Unpack the record at an offset of a value. -/
def unpackFrom (descriptor source : Value) (offset : Int) : Action (List Value) := do
  let f ← format descriptor
  let b ← report (buffer source)
  unpackFormat f b.data offset

/-- The records of unpacking record after record. -/
def unpackAllRecords (f : Format) (r : Records) : List LogRecord :=
  r.records.map (fun values => .unpacked values.length f 0) ++
    (r.fault?.map Fault.records).getD []

/-- A format and the data it is to be read from, which must have a size and a buffer. -/
def recordSource (descriptor source : Value) : Action (Format × Bytes) := do
  let f ← format descriptor
  let _ ← report f.size
  let b ← report (buffer source)
  return (f, b.data)

/-- The records of a value, one after the other; a fault ends them. -/
def unpackAll (descriptor source : Value) : StateM Session Records := do
  match ← (recordSource descriptor source).run with
  | .error fault => return ⟨[], some fault⟩
  | .ok (f, data) =>
    let r := f.unpackAll data
    note (unpackAllRecords f r)
    return r

/-- What is left of a value that was packed into, and whether packing succeeded. -/
structure Target where
  value : Value
  outcome : Except Fault Unit

/-- A format and the buffer it is to be written to. -/
def packTarget (descriptor target : Value) : Action (Format × Buffer) := do
  let f ← format descriptor
  let b ← report (buffer target)
  return (f, b)

/-- Pack values into a value at an offset. -/
def packInto (descriptor target : Value) (offset : Int) (values : List Value) :
    StateM Session Target := do
  match ← (packTarget descriptor target).run with
  | .error fault => return ⟨target, .error fault⟩
  | .ok (f, b) =>
    let packed := f.packInto b offset values
    note (packRecords f offset packed.surplus packed.outcome)
    return ⟨.buffer packed.buffer, packed.outcome.map fun _ => ()⟩

end Session

end BinaryLayout
