import BinaryLayout.Machine
import BinaryLayout.Proofs.Grammar
import BinaryLayout.Proofs.Refusals
import Mathlib.Data.List.Permutation

/-!
# Accepted descriptors

A descriptor without long runs of digits is accepted just when it is grammatical and writes no
zero as a count. The format then says what the text says, and since a letter is always one of
the table, no operation on it meets a type that the table does not know.
-/
namespace BinaryLayout

open Fault

namespace Format

variable {f : Format}

/-- No operation on the format meets an unknown type: what only needs the places of the tokens
succeeds, and packing and unpacking are refused for other reasons. -/
structure Resolved [Host] (f : Format) : Prop where
  placements : ∀ offset, ∃ ps, f.placements offset = .ok ps
  size : ∃ size, f.size = .ok size
  layout : ∃ fields, f.layout = .ok fields
  arity : ∃ n, f.arity = .ok n
  pack : ∀ values name, f.pack values ≠ .error (.unknownSpecifier name)
  packInto : ∀ b offset values name,
    (f.packInto b offset values).outcome ≠ .error (.unknownSpecifier name)
  unpackFrom : ∀ data offset name, f.unpackFrom data offset ≠ .error (.unknownSpecifier name)
  unpackAll : ∀ data name, (f.unpackAll data).fault? ≠ some (.unknownSpecifier name)

lemma plan_ne_unknownSpecifier {offset : ℤ} {ps : List Placement}
    (hw : f.walk offset = ps.map .ok) (length : ℕ) (values : List Value) (name : Text) :
    f.plan length offset values ≠ .error (.unknownSpecifier name) := by
  intro h
  obtain htoken | hfew | hvalue := plan_eq_error hw h
  · cases htoken
  · cases hfew
  · cases hvalue

/-- Well-formed tokens have types that every operation knows. -/
theorem WellFormed.resolved [Host] (h : f.WellFormed) : f.Resolved := by
  obtain ⟨ps, stop, hw, hc⟩ := h.exists_chain 0
  refine ⟨fun offset => ?_, ⟨stop, size_of_walk hw hc⟩, ⟨_, fieldsFrom_of_walk hw⟩,
    ⟨_, arity_of_walk h hw⟩, fun values name hfault => ?_, fun b offset values name hfault => ?_,
    fun data offset name hfault => ?_, fun data name hfault => ?_⟩
  · obtain ⟨qs, _, hwalk, -⟩ := h.exists_chain offset
    exact ⟨qs, placements_of_walk hwalk⟩
  · obtain hroom | hplan := pack_eq_error hw hc hfault
    · cases hroom
    · exact plan_ne_unknownSpecifier hw _ values name hplan
  · obtain ⟨qs, _, hwalk, hchain⟩ := h.exists_chain offset
    obtain hread | hplan := packInto_eq_error hwalk hchain hfault
    · cases hread
    · exact plan_ne_unknownSpecifier hwalk _ values name hplan
  · obtain ⟨qs, _, hwalk, -⟩ := h.exists_chain offset
    obtain htoken | hbytes := unpackFrom_eq_error hwalk hfault
    · cases htoken
    · cases hbytes
  · obtain hempty | htoken | hbytes := unpackAll_fault hw hc hfault
    · cases hempty
    · cases htoken
    · cases hbytes

end Format

namespace Descriptor

lemma Entry.count_ne_zero_iff {e : Entry} :
    e.count ≠ 0 ↔ (e.digits ≠ [] → Numeral.ofAsciiDigits e.digits ≠ 0) := by
  unfold count
  by_cases hnone : e.digits = []
  · simp [hnone]
  · simp [hnone]

/-- A descriptor without long runs of digits is accepted just when it is an optional mark and
entries that do not write zero. It has no other reading, the format has the mark's byte order
and the entries' counts and types in order, and every type is found whatever the format is used
for. -/
theorem compile_of_shortRuns [Host] {d : Text} (hd : ShortRuns d) :
    ((∃ f, compile d = .ok f) ↔ ∃ mark? es, Grammatical mark? es d.trim ∧
      ∀ e ∈ es, e.digits ≠ [] → Numeral.ofAsciiDigits e.digits ≠ 0) ∧
    (∀ f, compile d = .ok f → ∃ mark? es, Grammatical mark? es d.trim ∧
      (∀ mark?' es', Grammatical mark?' es' d.trim → mark?' = mark? ∧ es' = es) ∧
      f = ⟨mark?.getD .nativeAligned, es.map Entry.token, d⟩ ∧
      (∀ t ∈ f.tokens, 1 ≤ t.count ∧ ∃ s, t.code.specifier = .ok s) ∧ f.Resolved) ∧
    ∀ name, compile d ≠ .error (.unknownSpecifier name) := by
  refine ⟨⟨?_, ?_⟩, fun f hf => ?_, fun name hfault => ?_⟩
  · rintro ⟨f, hf⟩
    obtain ⟨mark?, es, hg, hes, -⟩ := compile_eq_ok_iff.mp hf
    exact ⟨mark?, es, hg, fun e he => Entry.count_ne_zero_iff.mp (hes e he).2⟩
  · rintro ⟨mark?, es, hg, hes⟩
    refine ⟨_, compile_eq_ok_iff.mpr ⟨mark?, es, hg, fun e he => ⟨?_, ?_⟩, rfl⟩⟩
    · exact hd.length_digits_le hg he
    · exact Entry.count_ne_zero_iff.mpr (hes e he)
  · obtain ⟨mark?, es, hg, -, hfe⟩ := compile_eq_ok_iff.mp hf
    have hwell := wellFormed_of_compile hf
    refine ⟨mark?, es, hg, fun mark?' es' hg' => hg'.unique hg, hfe, fun t ht => ?_,
      hwell.resolved⟩
    obtain ⟨hcount, s, hs⟩ := hwell t ht
    exact ⟨hcount, s, by rw [hs]; rfl⟩
  · obtain ⟨position, hunexpected | hzero⟩ | ⟨n, hlong⟩ := compile_eq_error hfault
    · cases hunexpected
    · cases hzero
    · cases hlong

/-- Blanks may stand around every entry but not behind the digits of a count. -/
theorem compile_of_shortRuns_blanks :
    ShortRuns " >b 10s\tI " ∧
      (∃ mark? es, Grammatical mark? es (Text.trim " >b 10s\tI ") ∧
        mark?.getD .nativeAligned = .bigEndian ∧
        es.map Entry.token = [⟨1, .known .int8⟩, ⟨10, .known .string⟩, ⟨1, .known .uint32⟩]) ∧
      ShortRuns ">1 0s" ∧
      ¬∃ mark? es, Grammatical mark? es (Text.trim ">1 0s") ∧
        ∀ e ∈ es, e.digits ≠ [] → Numeral.ofAsciiDigits e.digits ≠ 0 := by
  have hshort : ShortRuns " >b 10s\tI " :=
    fun run hrun _ => hrun.length_le.trans (by decide)
  have hshort' : ShortRuns ">1 0s" := fun run hrun _ => hrun.length_le.trans (by decide)
  refine ⟨hshort, ?_, hshort', ?_⟩
  · have hf : compile " >b 10s\tI " = .ok ⟨.bigEndian, [⟨1, .known .int8⟩,
        ⟨10, .known .string⟩, ⟨1, .known .uint32⟩], " >b 10s\tI "⟩ := by cbv
    obtain ⟨mark?, es, hg, -, hfe, -⟩ := (compile_of_shortRuns hshort).2.1 _ hf
    obtain ⟨horder, htokens, -⟩ := Format.mk.inj hfe
    exact ⟨mark?, es, hg, horder.symm, htokens.symm⟩
  · intro hg
    obtain ⟨f, hf⟩ := (compile_of_shortRuns hshort').1.mpr hg
    have hfault : compile ">1 0s" = .error (.unexpectedCharacter ">1 0s" 1) := by cbv
    rw [hfault] at hf
    cases hf

end Descriptor

end BinaryLayout
