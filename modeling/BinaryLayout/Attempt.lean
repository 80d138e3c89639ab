import BinaryLayout.Fault

/-!
# Attempts

An operation on something that keeps a state may fail and change the state all the same. An
attempt holds both: what came of it and the state after it.
-/
namespace BinaryLayout

/-- The outcome of an operation, and the state after it. -/
structure Attempt (σ α : Type) where
  outcome : Except Fault α
  after : σ

namespace Attempt

/-- An operation that was refused and changed nothing. -/
def refuse (state : σ) (fault : Fault) : Attempt σ α := ⟨.error fault, state⟩

/-- The same attempt with another result. -/
def map (f : α → β) (a : Attempt σ α) : Attempt σ β := ⟨a.outcome.map f, a.after⟩

/-- The same attempt as a part of a larger state. -/
def within (f : σ → τ) (a : Attempt σ α) : Attempt τ α := ⟨a.outcome, f a.after⟩

/-- Go on with the result, unless there is none. -/
def andThen (a : Attempt σ α) (f : α → σ → Attempt σ β) : Attempt σ β :=
  match a.outcome with
  | .ok x => f x a.after
  | .error fault => ⟨.error fault, a.after⟩

@[simp] theorem after_refuse (state : σ) (fault : Fault) :
    (refuse state fault : Attempt σ α).after = state := rfl

end Attempt

end BinaryLayout
