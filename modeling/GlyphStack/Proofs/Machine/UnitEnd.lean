import GlyphStack.Proofs.Machine.Position

/-!
Where a unit ends is worked out in two places. The dispatcher knows the instruction of a unit and
counts its characters while it carries it out; `unitEnd`, which the loops are found by, goes by the
first character alone and carries out nothing. They draw the same boundaries
(`dispatch_agrees_unitEnd`): a unit that the dispatcher has carried out ends where `unitEnd` says,
unless it is one of those that move about in the text, and one that `unitEnd` cannot read fails with
the same fault before the store is touched. The second half does not depend on what the store holds,
so a stack without room for the literal does not hide that the literal is malformed.
-/

namespace GlyphStack.Machine

open Program

/-- **The dispatcher and the reader of units agree on every unit**, wherever in the text it starts and
whatever machine comes to it. -/
theorem dispatch_agrees_unitEnd (machine : Machine) (start : Fin machine.program.text.length) :
    let first := machine.program.text[start]
    let outcome := dispatch machine.program machine.limits start first
      (machine.program.rest (start + 1)) machine.store
    (¬ IsControl first → ∀ next after, outcome = .ok next after →
        unitEnd machine.program.text start = .ok next) ∧
      ∀ fault, unitEnd machine.program.text start = .error fault →
        outcome = .error fault machine.store := by
  intro first outcome
  constructor
  · intro hplain next after hok
    rw [unitEnd_eq_ok_iff]
    cases dispatch_move hok with
    | past hread => exact ⟨_, hread, rfl⟩
    | skip hfirst => exact absurd (.inl hfirst) hplain
    | again hfirst => exact absurd (.inr (.inl hfirst)) hplain
    | leave hfirst => exact absurd (.inr (.inr hfirst)) hplain
  · intro fault herror
    obtain ⟨cause, hread, rfl⟩ := unitEnd_eq_error_iff.mp herror
    exact dispatch_misread hread machine.store

/-- The stack has room for one value. The literal at 0, which hides a delimiter, takes that room; the
quote mark at 4 then fails because no character follows it, and not because the stack is full. -/
theorem dispatch_on_full_stack :
    let machine := (onHeap .empty "\"\\\"\"'").withLimits { stackSize := 1 }
    let full := machine.step.2
    unitEnd machine.program.text ⟨0, by decide⟩ = .ok 4 ∧
      dispatch full.program full.limits 4 '\'' [] full.store =
        .error (.misread 4 (.literal .noCharacter)) full.store := by
  intro machine full
  have hread := (dispatch_agrees_unitEnd machine ⟨0, by decide⟩).1 (by unfold IsControl; decide)
  have hfails := (dispatch_agrees_unitEnd full ⟨4, by decide⟩).2
  exact ⟨hread 4 _ rfl, hfails _ rfl⟩

end GlyphStack.Machine
