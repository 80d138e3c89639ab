import BinaryLayout.Allocation
import BinaryLayout.Field.Scalar
import BinaryLayout.Field.Text
import BinaryLayout.Placement

/-!
# Packing

Values are packed in two steps: first every field is checked against the buffer and encoded, in
the order of the tokens, and only then are the bytes put into the buffer. So a refused value or
a missing byte of room leaves the buffer as it was.
-/
namespace BinaryLayout

/-- What is to be written, and the values that are left over. -/
structure Plan where
  writes : List Write
  rest : List Value

/-- The next value; `given` is how many there were at first. -/
def nextValue (given : Nat) : List Value → Except Fault (Value × List Value)
  | [] => .error (.insufficientValues (given + 1) given)
  | v :: rest => .ok (v, rest)

/-- The writes of `count` elements from an offset on. -/
def planElements (order : ByteOrder) (s : Specifier) (given : Nat) :
    Nat → Nat → List Value → Except Fault Plan
  | _, 0, values => .ok ⟨[], values⟩
  | offset, count + 1, values => do
    let (v, rest) ← nextValue given values
    let raw ← Field.encode s v order
    let plan ← planElements order s given (offset + s.size) count rest
    return ⟨⟨offset, raw⟩ :: plan.writes, plan.rest⟩

/-- The writes of one token. -/
def Placement.plan (p : Placement) (order : ByteOrder) (length given : Nat)
    (values : List Value) : Except Fault Plan := do
  p.check length
  match p.specifier.kind with
  | .pad => return ⟨[], values⟩
  | .string =>
    let (v, rest) ← nextValue given values
    let raw ← Field.encodeString v p.count
    return ⟨[⟨p.offset.toNat, raw⟩], rest⟩
  | _ => planElements order p.specifier given p.offset.toNat p.count.toNat values

/-- The writes of a walk over tokens. -/
def planWalk (order : ByteOrder) (length given : Nat) :
    List (Except Fault Placement) → List Value → Except Fault Plan
  | [], values => .ok ⟨[], values⟩
  | step :: steps, values => do
    let p ← step
    let first ← p.plan order length given values
    let others ← planWalk order length given steps first.rest
    return ⟨first.writes ++ others.writes, others.rest⟩

/-- A buffer after packing: how many values were left over, and how many fields were written. -/
structure Packed where
  buffer : Buffer
  surplus : Nat
  outcome : Except Fault Nat

/-- A record of its own. -/
structure PackedRecord where
  data : Bytes
  surplus : Nat
  fields : Nat
  deriving DecidableEq, Repr

namespace Format

/-- The writes of a record into a buffer of the given length. -/
def plan (f : Format) (length : Nat) (offset : Int) (values : List Value) : Except Fault Plan :=
  planWalk f.order length values.length (f.walk offset) values

/-- Carry out a plan. -/
def carryOut (b : Buffer) (plan : Plan) : Packed :=
  let written := b.writeAll plan.writes
  ⟨written.buffer, plan.rest.length,
    if written.complete then .ok plan.writes.length else .error .viewLength⟩

/-- Pack values into a buffer at an offset. -/
def packInto (f : Format) (b : Buffer) (offset : Int) (values : List Value) : Packed :=
  if b.holding.readOnly then ⟨b, 0, .error (.readOnly b.holding.name)⟩
  else
    match f.plan b.data.length offset values with
    | .error fault => ⟨b, 0, .error fault⟩
    | .ok plan => carryOut b plan

/-- Pack values into a buffer of just the size of the record. The buffer is not made before the
plan is. -/
def pack [Host] (f : Format) (values : List Value) : Except Fault PackedRecord := do
  let size ← f.size
  let length ← allocate size
  let plan ← f.plan length 0 values
  let packed := carryOut (.whole .growable (← keepZeros length)) plan
  let fields ← packed.outcome
  return ⟨packed.buffer.data, packed.surplus, fields⟩

end Format

end BinaryLayout
