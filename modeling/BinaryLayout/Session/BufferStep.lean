import BinaryLayout.Session

/-!
# Steps on a buffer

A run of operations on one buffer, each of which finds what the ones before it left there. Only
packing can change the buffer.
-/
namespace BinaryLayout

/-- What can be done with a buffer. -/
inductive BufferStep where
  | packInto (descriptor : Value) (offset : Int) (values : List Value)
  | unpackFrom (descriptor : Value) (offset : Int)
  | unpackAll (descriptor : Value)

/-- What a step gives. -/
inductive BufferReply where
  /-- The buffer itself. -/
  | itself
  | values (values : List Value)
  | records (r : Records)

structure BufferStep.Result where
  target : Value
  outcome : Except Fault BufferReply

namespace BufferStep

/-- Do one step. -/
def run (target : Value) : BufferStep → StateM Session Result
  | .packInto descriptor offset values => do
    let t ← Session.packInto descriptor target offset values
    return ⟨t.value, t.outcome.map fun _ => .itself⟩
  | .unpackFrom descriptor offset => do
    let outcome ← (Session.unpackFrom descriptor target offset).run
    return ⟨target, outcome.map .values⟩
  | .unpackAll descriptor => do
    return ⟨target, .ok (.records (← Session.unpackAll descriptor target))⟩

/-- Do the steps in order. -/
def runAll (target : Value) : List BufferStep → StateM Session (List Result)
  | [] => return []
  | step :: rest => do
    let r ← step.run target
    return r :: (← runAll r.target rest)

end BufferStep

end BinaryLayout
