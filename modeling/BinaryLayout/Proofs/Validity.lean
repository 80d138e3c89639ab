import BinaryLayout.Proofs.Grammar
import BinaryLayout.Proofs.Sessions

/-!
# Valid descriptors

Whether a value is a descriptor is found out by compiling it. It is not one when compiling finds
a problem of its own with it: what kind of value it is, or a place of its text. A count with too
many digits is no such problem. The conversion of numerals refuses it, whatever it is converted
for, and so compiling fails otherwise and whether the descriptor is valid has no answer.
-/
namespace BinaryLayout

/-- What is wrong with a value that is no descriptor: its kind, or a place of its text. -/
inductive Fault.OfDescriptor : Value → Fault → Prop where
  | kind {v : Value} : (∀ d, v ≠ .text d) → OfDescriptor v (.descriptorKind v.kindName)
  | zeroCount (d : Text) (position : ℕ) : OfDescriptor (.text d) (.zeroCount d.trim position)
  | unexpectedCharacter (d : Text) (position : ℕ) :
      OfDescriptor (.text d) (.unexpectedCharacter d.trim position)

/-- The value is a text whose first problem is a count of `n` digits, which are too many. -/
def Value.Overlong (v : Value) (n : ℕ) : Prop := ∃ d, v = .text d ∧ Descriptor.Overlong d n

namespace Session

open Fault

lemma refusesDescriptor_of_ofDescriptor {v : Value} {fault : Fault} (h : OfDescriptor v fault) :
    refusesDescriptor fault = true := by
  cases h <;> rfl

/-- Only a text is compiled, to what it denotes. -/
lemma compile_of_ne_text {v : Value} (h : ∀ d, v ≠ .text d) (s : Session) :
    (compile v).run.run s = (.error (.descriptorKind v.kindName), s) := by
  cases v with
  | text d => exact absurd rfl (h d)
  | absent | bool | int | real | buffer | list | tuple | format => rfl

/-- Compiling fails for a problem of the descriptor, or for the digits of a count. -/
theorem compile_eq_error {s : Session} (hs : s.Sound) {v : Value} {fault : Fault}
    (h : ((compile v).run.run s).1 = .error fault) :
    OfDescriptor v fault ∨ ∃ n, fault = .countTooLong n ∧ v.Overlong n := by
  by_cases htext : ∃ d, v = .text d
  · obtain ⟨d, rfl⟩ := htext
    have hd := (run_compileText hs d).1
    change ((compileText d).run.run s).1 = .error fault at h
    rw [h] at hd
    obtain ⟨position, rfl | rfl⟩ | ⟨n, rfl⟩ := Descriptor.compile_eq_error hd.symm
    · exact .inl (.unexpectedCharacter d position)
    · exact .inl (.zeroCount d position)
    · exact .inr ⟨n, rfl, d, rfl, Descriptor.compile_eq_countTooLong_iff.mp hd.symm⟩
  · have hkind : ∀ d, v ≠ .text d := fun d hv => htext ⟨d, hv⟩
    rw [compile_of_ne_text hkind] at h
    cases h
    exact .inl (.kind hkind)

lemma compile_of_overlong {s : Session} (hs : s.Sound) {v : Value} {n : ℕ} (h : v.Overlong n) :
    ((compile v).run.run s).1 = .error (.countTooLong n) := by
  obtain ⟨d, rfl, hd⟩ := h
  have hcompile := (run_compileText hs d).1
  rw [Descriptor.compile_eq_countTooLong_iff.mpr hd] at hcompile
  change ((compileText d).run.run s).1 = _
  revert hcompile
  cases ((compileText d).run.run s).1 with
  | ok e => exact fun h => (by cases h)
  | error fault => exact fun h => (by cases h; rfl)

/-- A value is valid when it is compiled, and is not valid when what stops the compilation is a
problem of the descriptor. -/
lemma run_isValid (v : Value) (s : Session) :
    (isValid v).run.run s =
      match (compile v).run.run s with
      | (.ok _, s') => (.ok true, s')
      | (.error fault, s') =>
        (if refusesDescriptor fault then .ok false else .error fault, s') := by
  have hbind := run_bind (compile v) (fun _ => pure true) s
  simp only [isValid, tryCatch, tryCatchThe, MonadExceptOf.tryCatch, ExceptT.tryCatch,
    ExceptT.run, ExceptT.mk, StateT.run, bind, StateT.bind] at hbind ⊢
  rw [hbind]
  rcases compile v s with ⟨fault | e, s'⟩
  · simp only
    split <;> rfl
  · rfl

/-- In every session and for every value, compiling and asking whether the value is valid agree
and leave the session sound. If the first problem is the digits of a count, both fail for that.
Otherwise compiling either succeeds or finds a problem of the descriptor, and the value is valid
just in the first case. -/
theorem isValid_agrees {s : Session} (hs : s.Sound) (v : Value) :
    ((isValid v).run.run s).2 = ((compile v).run.run s).2 ∧
      ((compile v).run.run s).2.Sound ∧
      (∀ n, v.Overlong n → ((compile v).run.run s).1 = .error (.countTooLong n) ∧
        ((isValid v).run.run s).1 = .error (.countTooLong n)) ∧
      ((∀ n, ¬v.Overlong n) →
        (∃ e, ((compile v).run.run s).1 = .ok e ∧ ((isValid v).run.run s).1 = .ok true) ∨
        ∃ fault, ((compile v).run.run s).1 = .error fault ∧ OfDescriptor v fault ∧
          ((isValid v).run.run s).1 = .ok false) := by
  have hrun := run_isValid v s
  have hkept := keeps_compile v s hs
  have hlong := fun n (h : v.Overlong n) => compile_of_overlong hs h
  have herror := fun fault => @compile_eq_error s hs v fault
  rw [hrun]
  generalize (compile v).run.run s = r at *
  obtain ⟨fault | e, s'⟩ := r
  · refine ⟨rfl, hkept, fun n h => ?_, fun hnone => .inr ?_⟩
    · cases hlong n h
      exact ⟨rfl, rfl⟩
    · obtain hown | ⟨n, -, h⟩ := herror fault rfl
      · refine ⟨fault, rfl, hown, ?_⟩
        simp only [refusesDescriptor_of_ofDescriptor hown, if_true]
      · exact absurd h (hnone n)
  · exact ⟨rfl, hkept, fun n h => (by cases hlong n h), fun _ => .inl ⟨e, rfl, rfl⟩⟩

/-- Too many zeros for a count. -/
def manyZeros : Text := List.replicate 4301 (CodePoint.ofChar '0')

/-- A count of zero that is written with too many digits is not found to be zero, and whether
the descriptor is valid has no answer. -/
theorem isValid_agrees_manyZeros :
    empty.Sound ∧
      ((compile (.text (manyZeros ++ "b"))).run.run empty).1 = .error (.countTooLong 4301) ∧
      ((isValid (.text (manyZeros ++ "b"))).run.run empty).1 = .error (.countTooLong 4301) := by
  have hdigits : Descriptor.Digits manyZeros := by
    intro c hc
    rw [List.eq_of_mem_replicate hc]
    decide
  have hlength : manyZeros.length = 4301 := List.length_replicate
  have htrim : Text.trim (manyZeros ++ "b") = manyZeros ++ "b" := by
    have hstart : Text.trimStart (manyZeros ++ "b") = manyZeros ++ "b" :=
      Descriptor.trimStart_entry hdigits .int8 []
    have hend : ((manyZeros ++ "b" : Text).reverse).dropWhile CodePoint.isBlank =
        (manyZeros ++ "b" : Text).reverse := by
      have hletter : ("b" : Text) = [CodePoint.ofChar 'b'] := rfl
      rw [hletter, List.reverse_append, List.reverse_singleton, List.singleton_append,
        List.dropWhile_cons_of_neg (by decide)]
    rw [Text.trim, hstart, Text.trimEnd, hend, List.reverse_reverse]
  have hnone : Descriptor.Blanks [] := fun _ hc => absurd hc List.not_mem_nil
  have hopens := Descriptor.Opens.intro .int8 [] hnone hdigits hnone
  -- Left to unification, the two texts would be compared digit by digit.
  rw [List.nil_append, List.nil_append] at hopens
  have hlong : Value.Overlong (.text (manyZeros ++ "b")) 4301 :=
    ⟨_, rfl, none, _, [], _, _, _, htrim, .nil _, fun _ he => absurd he List.not_mem_nil, hopens,
      hlength, by decide⟩
  exact ⟨sound_empty, (isValid_agrees sound_empty _).2.2.1 4301 hlong⟩

end Session

end BinaryLayout
