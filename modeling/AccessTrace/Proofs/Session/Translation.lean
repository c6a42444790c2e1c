import AccessTrace.Proofs.Code.Listing
import AccessTrace.Proofs.FastPath.Emission
import AccessTrace.Session.Tracer

/-!
# Translated blocks

The tracer shows every instruction of a block to the injector, so the translated block is the
expansion of its instructions; a client that inserts nothing leaves the block as it is.
-/

namespace AccessTrace

namespace Listing

/-- Nothing has been inserted into the listing of a block yet. -/
theorem at_ofInstructions (is : List Instruction) :
    (ofInstructions is).At [] (numbered 0 is) 0 := by
  refine ⟨issued_ofInstructions is, ⟨[], ?_, rfl⟩, ?_⟩
  · rw [ofInstructions_eq, List.nil_append]
  · rw [ofInstructions_eq]

end Listing

variable {ω : Type}

namespace Tracer

open Listing (numbered)

variable {t : Tracer ω} {usesCounter : Bool} {l : Listing} {before : List Node} {label : Nat}

theorem instrumentAll_ok (ht : t.injector.Uses usesCounter) (session : Session ω) (handle : Nat)
    (is : List Instruction) (hat : l.At before (numbered handle is) label) :
    ∃ l' label', Host.instrumentAll t.client ((numbered handle is).map (·.1)) (l, session) =
        .ok () (l', session) ∧
      l'.At (before ++ t.injector.expansion usesCounter label is) [] label' := by
  induction is generalizing handle l before label with
  | nil => exact ⟨l, label, rfl, by simpa [Injector.expansion, numbered] using hat⟩
  | cons i is ih =>
    obtain ⟨n, l₁, hfirst, hat₁⟩ := Injector.instrument_ok ht hat
    obtain ⟨l₂, label', hrest, hat₂⟩ := ih (handle + 1) hat₁.next
    refine ⟨l₂, label', ?_, ?_⟩
    · have hclient : t.client.instrument ⟨handle⟩ (l, session) = .ok () (l₁, session) := by
        change t.instrument ⟨handle⟩ (l, session) = _
        unfold instrument
        simp only [hfirst]
      exact (Step.bind_of_ok hclient).trans hrest
    · rw [Injector.expansion]
      simpa only [List.append_assoc, List.singleton_append] using hat₂

/-- A translated block is the expansion of its instructions. -/
theorem translate_ok (ht : t.injector.Uses usesCounter) (b : Block) (session : Session ω) :
    Host.translate t.client b session =
      .ok (t.injector.expansion usesCounter 0 b.instructions) session := by
  obtain ⟨l, label, hall, hat⟩ := instrumentAll_ok ht session 0 b.instructions
    (Listing.at_ofInstructions b.instructions)
  unfold Host.translate
  simp only [Listing.appHandles_ofInstructions, hall]
  rw [hat.nodes, List.map_nil, List.append_nil, List.nil_append]

end Tracer

end AccessTrace
