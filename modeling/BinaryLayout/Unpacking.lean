import BinaryLayout.Field.Scalar
import BinaryLayout.Field.Text
import BinaryLayout.Placement

/-!
# Unpacking

The values of a record are read field by field, each checked against the data when it is
reached. Data that holds several records is read record by record.
-/
namespace BinaryLayout

/-- The values of one token. -/
def Placement.values (p : Placement) (order : ByteOrder) (data : Bytes) :
    Except Fault (List Value) := do
  p.check data.length
  match p.specifier.kind with
  | .pad => return []
  | .string =>
    let t ← Field.decodeString (data.slice p.offset (p.offset + p.count))
    return [.text t]
  | _ =>
    (List.range p.count.toNat).mapM fun i =>
      let start := p.elementOffset i
      Field.decode p.specifier (.ofBytes (data.slice start (start + p.specifier.size))) order

/-- Records that were read, and what ended the reading if it was not the end of the data. -/
structure Records where
  records : List (List Value)
  fault? : Option Fault

namespace Format

/-- The values of the record at an offset. -/
def unpackFrom (f : Format) (data : Bytes) (offset : Int) : Except Fault (List Value) :=
  ((f.walk offset).mapM fun (step : Except Fault Placement) =>
    step.bind fun p => p.values f.order data).map List.flatten

def unpack (f : Format) (data : Bytes) : Except Fault (List Value) := f.unpackFrom data 0

/-- The data of each record, when the data is a whole number of records. -/
def chunks (f : Format) (data : Bytes) : Except Fault (List Bytes) := do
  let size ← f.size
  if size = 0 then .error (.emptyRecord f.descriptor)
  else
    let remainder := (data.length : Int).fmod size
    if remainder ≠ 0 then
      .error (Fault.bufferTooSmall (data.length - remainder) size data.length).limited
    else
      return (List.range (data.length / size.toNat)).map fun (k : Nat) =>
        data.slice (k * size) (k * size + size)

/-- The records of some data, up to the first one that cannot be read. -/
def unpackChunks (f : Format) : List Bytes → Records
  | [] => ⟨[], none⟩
  | chunk :: rest =>
    match f.unpack chunk with
    | .error fault => ⟨[], some fault⟩
    | .ok values =>
      let others := unpackChunks f rest
      ⟨values :: others.records, others.fault?⟩

/-- The records of the data, one after the other. -/
def unpackAll (f : Format) (data : Bytes) : Records :=
  match f.chunks data with
  | .error fault => ⟨[], some fault⟩
  | .ok chunks => f.unpackChunks chunks

end Format

end BinaryLayout
