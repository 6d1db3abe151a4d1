import GlyphStack.Proofs.Machine.Effect

/-!
The footprint of a step: what it can change of the storages, the open stacks and the variables that
were there before. Which storages those are is read off the unit and the current stack alone, so a
host that holds an array knows without running the unit whether the unit can reach it, however the
arrays share their items. A unit that fails is held to the same footprint as one that is carried out.
-/

namespace GlyphStack.Machine

/-- The storages that the next step may change: the current stack, for `]` the stack below it, which
becomes current, and for `;` and `$` the array that they take. -/
inductive Writes (machine : Machine) (ref : Ref) : Prop where
  | current (h : ref = machine.store.frames.current)
  | outer {outer : Frames} (hunit : machine.unit? = some .closeFrame)
      (hclose : machine.store.frames.closeOne? = some outer) (h : ref = outer.current)
  | operand {instruction : Instruction} (hunit : machine.unit? = some instruction)
      (h : machine.store.ChangesItemsOf ref instruction)

/-- Every other storage that was there reads the same after the step. -/
theorem read_step_of_not_writes {machine : Machine} {ref : Ref}
    (hthere : ref.index < machine.store.heap.size) (h : ¬ machine.Writes ref) :
    machine.step.2.store.heap.read ref = machine.store.heap.read ref := by
  rcases step_effect machine with ⟨-, hstore, -⟩ | ⟨instruction, hunit, heffect, -⟩
  · rw [hstore]
  · refine heffect.read_eq hthere ?_ ?_ ?_
    · intro hcurrent
      exact h (.current hcurrent)
    · rintro rfl houter
      rcases heffect.frames_cases with hsame | ⟨-, other, -, hopened⟩ | ⟨-, hclosed⟩
      · exact h (.current (houter.trans (congrArg Frames.current hsame)))
      · simp at hopened
      · rcases hclosed with hclose | ⟨-, hsingle, -⟩
        · exact h (.outer hunit hclose houter)
        · -- the stack that replaces the only one was not there before
          rw [houter, hsingle] at hthere
          exact absurd hthere (Nat.lt_irrefl _)
    · intro hchanges
      exact h (.operand hunit hchanges)

/-- Only the units that open or close a stack change which stacks are open. -/
theorem unit?_of_frames_step_ne {machine : Machine}
    (h : machine.step.2.store.frames ≠ machine.store.frames) :
    machine.unit? = some .openFrame ∨ machine.unit? = some .openArray ∨
      machine.unit? = some .closeFrame := by
  rcases step_effect machine with ⟨-, hstore, -⟩ | ⟨instruction, hunit, heffect, -⟩
  · rw [hstore] at h
    contradiction
  · rcases heffect.frames_cases with hsame | ⟨-, ref, -, hopened⟩ | ⟨rfl, -⟩
    · contradiction
    · rcases hopened with ⟨rfl, -⟩ | ⟨rfl, -⟩
      · exact .inl hunit
      · exact .inr (.inl hunit)
    · exact .inr (.inr hunit)

/-- Only `=` changes a variable, and only the one whose name is the text of the value that it took
for a name. -/
theorem unit?_of_bindings_step_ne {machine : Machine}
    (h : machine.step.2.store.bindings ≠ machine.store.bindings) :
    machine.unit? = some .store ∧ ∃ (below : Array Value) (name : Value),
      machine.store.stack = below.push name ∧
      ∀ other, other ≠ (machine.store.taking 1).heap.render machine.limits.nesting name →
        machine.step.2.store.bindings.get? other = machine.store.bindings.get? other := by
  rcases step_effect machine with ⟨-, hstore, -⟩ | ⟨instruction, hunit, heffect, -⟩
  · rw [hstore] at h
    contradiction
  · rcases heffect.bindings_cases with hsame | ⟨rfl, below, name, hname, hput⟩
    · contradiction
    · refine ⟨hunit, below, name, hname, ?_⟩
      intro other hother
      rw [hput]
      exact Dictionary.get?_put_of_ne _ hother _

/-- **The footprint of a step.** Of the storages that were there, a step changes none but those it
`Writes`; the open stacks change only at `[`, `|` and `]`, and the variables only at `=`, and there
only under the text of the name that was taken off. -/
theorem step_footprint (machine : Machine) :
    (∀ ref : Ref, ref.index < machine.store.heap.size →
      machine.step.2.store.heap.read ref ≠ machine.store.heap.read ref → machine.Writes ref) ∧
    (machine.step.2.store.frames ≠ machine.store.frames →
      machine.unit? = some .openFrame ∨ machine.unit? = some .openArray ∨
        machine.unit? = some .closeFrame) ∧
    (machine.step.2.store.bindings ≠ machine.store.bindings →
      machine.unit? = some .store ∧ ∃ (below : Array Value) (name : Value),
        machine.store.stack = below.push name ∧
        ∀ other, other ≠ (machine.store.taking 1).heap.render machine.limits.nesting name →
          machine.step.2.store.bindings.get? other = machine.store.bindings.get? other) := by
  refine ⟨?_, unit?_of_frames_step_ne, unit?_of_bindings_step_ne⟩
  intro ref hthere hdiffers
  by_contra hwrites
  exact hdiffers (read_step_of_not_writes hthere hwrites)

end GlyphStack.Machine
