import BinaryLayout.Proofs.Records
import BinaryLayout.Proofs.Sessions
import BinaryLayout.Session.BufferStep

/-!
# Runs on a buffer

Packing writes nothing before the whole record is planned, and a plan has no write that could be
refused or make the buffer grow. So along a run a buffer keeps its length, a step that fails
leaves all of it as it was, and only packing changes it.
-/
namespace BinaryLayout

/-- The buffers are held alike, have the same storage around them and are equally long. -/
structure Buffer.SameRoom (b b' : Buffer) : Prop where
  holding : b'.holding = b.holding
  before : b'.before = b.before
  after : b'.after = b.after
  length : b'.data.length = b.data.length

theorem Buffer.SameRoom.refl (b : Buffer) : b.SameRoom b := ⟨rfl, rfl, rfl, rfl⟩

/-- Packing fails and leaves the buffer as it was, or replaces bytes by as many. -/
theorem Format.packInto_cases {f : Format} (h : f.WellFormed) (b : Buffer) (offset : ℤ)
    (values : List Value) :
    (∃ fault, f.packInto b offset values = ⟨b, 0, .error fault⟩) ∨
      ∃ data surplus n, data.length = b.data.length ∧
        f.packInto b offset values = ⟨{ b with data := data }, surplus, .ok n⟩ := by
  by_cases hb : b.holding.readOnly = true
  · left
    exact ⟨_, by rw [packInto, if_pos hb]⟩
  obtain ⟨ps, stop, hw, hc⟩ := h.exists_chain offset
  cases hplan : f.plan b.data.length offset values with
  | error fault =>
    left
    refine ⟨fault, ?_⟩
    rw [packInto, if_neg hb, hplan]
  | ok plan =>
    right
    exact ⟨_, _, _, Bytes.length_spliceAll (inside_of_plan hw hc hplan),
      packInto_of_plan hw hc (by simpa using hb) hplan⟩

namespace BufferStep

def descriptor : BufferStep → Value
  | .packInto descriptor _ _ | .unpackFrom descriptor _ | .unpackAll descriptor => descriptor

def Reads : BufferStep → Prop
  | .packInto .. => False
  | .unpackFrom .. | .unpackAll .. => True

/-- What becomes of a buffer in a step: it keeps its length and what is around it, and all of its
bytes if the step fails or only reads. -/
structure Intact (step : BufferStep) (b b' : Buffer) (outcome : Except Fault BufferReply) :
    Prop where
  room : b.SameRoom b'
  failed : ∀ fault, outcome = .error fault → b' = b
  read : step.Reads → b' = b

/-- What becomes of a buffer along a run, each step starting from what the ones before it left. -/
inductive AllIntact : Buffer → List BufferStep → List Result → Prop where
  | nil (b : Buffer) : AllIntact b [] []
  | cons {b b' : Buffer} {step : BufferStep} {steps : List BufferStep} {r : Result}
      {results : List Result} : r.target = .buffer b' → step.Intact b b' r.outcome →
      AllIntact b' steps results → AllIntact b (step :: steps) (r :: results)

/-- One step on a buffer. -/
theorem run_intact {s : Session} (hs : s.Sound) {step : BufferStep}
    (hd : ∃ d, step.descriptor = .text d) (b : Buffer) :
    (∃ b', ((step.run (.buffer b)).run s).1.target = .buffer b' ∧
      step.Intact b b' ((step.run (.buffer b)).run s).1.outcome) ∧
    ((step.run (.buffer b)).run s).2.Sound := by
  obtain ⟨d, hd⟩ := hd
  cases step with
  | unpackFrom descriptor offset =>
    refine ⟨⟨b, rfl, .refl b, fun _ _ => rfl, fun _ => rfl⟩, ?_⟩
    exact Session.keeps_bind (Session.keeps_unpackFrom _ _ _) (fun _ => Session.keeps_pure _) s hs
  | unpackAll descriptor =>
    refine ⟨⟨b, rfl, .refl b, fun _ _ => rfl, fun _ => rfl⟩, ?_⟩
    exact Session.keeps_bind (Session.keeps_unpackAll _ _) (fun _ => Session.keeps_pure _) s hs
  | packInto descriptor offset values =>
    cases hd
    obtain ⟨htarget, hsound⟩ := Session.run_packInto hs d b offset values
    have hrun : ((BufferStep.packInto (.text d) offset values).run (.buffer b)).run s =
        (⟨(Session.targetOf (Descriptor.compile d) b offset values).value,
          (Session.targetOf (Descriptor.compile d) b offset values).outcome.map
            fun _ => BufferReply.itself⟩,
          ((Session.packInto (.text d) (.buffer b) offset values).run s).2) := by
      rw [← htarget]
      rfl
    rw [hrun]
    refine ⟨?_, hsound⟩
    cases hf : Descriptor.compile d with
    | error fault => exact ⟨b, rfl, .refl b, fun _ _ => rfl, nofun⟩
    | ok f =>
      simp only [Session.targetOf]
      obtain ⟨fault, hp⟩ | ⟨data, surplus, n, hlength, hp⟩ :=
        f.packInto_cases (Descriptor.wellFormed_of_compile hf) b offset values
      · rw [hp]
        exact ⟨b, rfl, .refl b, fun _ _ => rfl, nofun⟩
      · rw [hp]
        exact ⟨_, rfl, ⟨rfl, rfl, rfl, hlength⟩, nofun, nofun⟩

/-- Along every run of steps on a buffer, with texts as descriptors, the buffer keeps its length,
and it keeps all of its bytes in every step that fails or only reads. -/
theorem runAll_intact :
    Session.empty.Sound ∧
    ∀ s : Session, s.Sound → ∀ steps : List BufferStep,
      (∀ step ∈ steps, ∃ d, step.descriptor = .text d) → ∀ b : Buffer,
        AllIntact b steps ((runAll (.buffer b) steps).run s).1 ∧
          ((runAll (.buffer b) steps).run s).2.Sound := by
  refine ⟨Session.sound_empty, ?_⟩
  intro s hs steps
  induction steps generalizing s with
  | nil => exact fun _ b => ⟨.nil b, hs⟩
  | cons step steps ih =>
    intro hd b
    obtain ⟨⟨b', htarget, hintact⟩, hsound⟩ := run_intact hs (hd step List.mem_cons_self) b
    obtain ⟨hall, hend⟩ := ih _ hsound (fun st hst => hd st (List.mem_cons_of_mem _ hst)) b'
    rw [← htarget] at hall hend
    exact ⟨.cons htarget hintact hall, hend⟩

/-- A step that fails half-way through the values, after one that succeeds. -/
theorem runAll_intact_of_two :
    AllIntact (.whole .growable [0, 0]) [.packInto (.text "<2b") 0 [.int 1, .int 2],
        .packInto (.text "<2b") 0 [.int 3, .int 300]]
      ((runAll (.buffer (.whole .growable [0, 0])) [.packInto (.text "<2b") 0 [.int 1, .int 2],
        .packInto (.text "<2b") 0 [.int 3, .int 300]]).run .empty).1 := by
  refine (runAll_intact.2 .empty runAll_intact.1 _ ?_ _).1
  intro step hstep
  simp only [List.mem_cons, List.not_mem_nil, or_false] at hstep
  rcases hstep with rfl | rfl <;> exact ⟨_, rfl⟩

end BufferStep

end BinaryLayout
