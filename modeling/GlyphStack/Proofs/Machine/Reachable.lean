import GlyphStack.Machine.Run

/-!
The machines that a host can come to hold: built for a program text with any limits, place,
variables and stacks, and then stepped any number of times. Runs with and without a budget are
steps, and a run that is out of its budget halts, so what holds of every reachable machine holds
however the host drives it.
-/

namespace GlyphStack.Machine

/-! ## 1. One step -/

/-- The unit at a machine's position is carried out, with this outcome. -/
structure Carries (machine : Machine) (outcome : EStateM.Result Fault Store Nat) : Prop where
  running : machine.halted = false
  dispatch : ∃ first tail, machine.program.rest machine.position = first :: tail ∧
    dispatch machine.program machine.limits machine.position first tail machine.store = outcome

/-- What a step can be: of a halted machine nothing, at the end of the text the halt, and otherwise
a unit that is carried out or fails. -/
theorem step_cases (machine : Machine) :
    (machine.halted = true ∧ machine.step = (.done, machine)) ∨
    (machine.halted = false ∧ machine.program.rest machine.position = [] ∧
      machine.step = (.done, { machine with halted := true })) ∨
    (∃ next store, machine.Carries (.ok next store) ∧
      machine.step = (.continued, { machine with store, position := next })) ∨
    (∃ fault store, machine.Carries (.error fault store) ∧
      machine.step = (.failed (failureAt machine.program machine.position fault),
        { machine with store, halted := true })) := by
  obtain ⟨program, limits, store, position, halted⟩ := machine
  cases halted with
  | true => exact .inl ⟨rfl, rfl⟩
  | false =>
    cases hrest : program.rest position with
    | nil =>
      refine .inr (.inl ⟨rfl, rfl, ?_⟩)
      simp only [step, hrest, Bool.false_eq_true, if_false]
    | cons first tail =>
      cases hdispatch : GlyphStack.dispatch program limits position first tail store with
      | ok next after =>
        refine .inr (.inr (.inl ⟨next, after, ⟨rfl, first, tail, hrest, hdispatch⟩, ?_⟩))
        simp only [step, hrest, hdispatch, Bool.false_eq_true, if_false]
      | error fault after =>
        refine .inr (.inr (.inr ⟨fault, after, ⟨rfl, first, tail, hrest, hdispatch⟩, ?_⟩))
        simp only [step, hrest, hdispatch, Bool.false_eq_true, if_false]

/-- A unit that is carried out is one step. -/
theorem step_of_dispatch {machine : Machine} {first : Char} {tail : List Char} {next : Nat}
    {store : Store} (hrunning : machine.halted = false)
    (hrest : machine.program.rest machine.position = first :: tail)
    (hdispatch : GlyphStack.dispatch machine.program machine.limits machine.position first tail
      machine.store = .ok next store) :
    machine.step = (.continued, { machine with store, position := next }) := by
  obtain ⟨program, limits, before, position, halted⟩ := machine
  simp only at hrunning hrest hdispatch
  simp only [step, hrunning, hrest, hdispatch, Bool.false_eq_true, if_false]

/-- A step goes on exactly where it has carried its unit out. -/
theorem carries_of_continued {machine : Machine} (h : machine.step.1 = .continued) :
    ∃ next store, machine.Carries (.ok next store) ∧
      machine.step = (.continued, { machine with store, position := next }) := by
  rcases step_cases machine with ⟨-, hstep⟩ | ⟨-, -, hstep⟩ | hcarried | ⟨_, _, -, hstep⟩
  · simp [hstep] at h
  · simp [hstep] at h
  · exact hcarried
  · simp [hstep] at h

/-! ## 2. Machines that a host can hold -/

/-- The machine was built for the program text `code` and has not carried out a unit yet. -/
inductive Built (code : String) : Machine → Prop where
  | onHeap (heap : Heap) : Built code (.onHeap heap code)
  | withLimits {machine : Machine} (h : Built code machine) (limits : Limits) :
      Built code (machine.withLimits limits)
  | withOrigin {machine : Machine} (h : Built code machine) (origin : Origin) :
      Built code (machine.withOrigin origin)
  | withBindings {machine machine' : Machine} (h : Built code machine) (bindings : Dictionary)
      (hok : machine.withBindings bindings = .ok machine') : Built code machine'
  | withFrames {machine : Machine} (h : Built code machine) (contents : List (Array Value)) :
      Built code (machine.withFrames contents)

/-- The machine of a program under limits, with private copies of a host's variables, and on new
stacks. -/
def prepared (host : Heap) (code : String) (bindings : Dictionary) (contents : List (Array Value))
    (limits : Limits) : Except Fault Machine := do
  let machine ← ((onHeap host code).withLimits limits).withBindings bindings
  return machine.withFrames contents

/-- What a host prepares hangs on the copies of its variables, and these on the limit on nesting. -/
theorem prepared_eq (host : Heap) (code : String) (bindings : Dictionary)
    (contents : List (Array Value)) (limits : Limits) :
    prepared host code bindings contents limits =
      (bindings.snapshot limits.nesting (Store.onHeap host).heap).map fun (copies, heap) =>
        Machine.withFrames
          { onHeap host code with
            limits, store := { Store.onHeap host with heap, bindings := copies } } contents := by
  unfold prepared withBindings
  cases hsnapshot : bindings.snapshot limits.nesting (Store.onHeap host).heap <;>
    simp [withLimits, onHeap, hsnapshot, bind, Except.bind, pure, Except.pure, Except.map]

/-- The machine comes from `start` by steps; it may also have been halted for want of budget. -/
inductive Reachable (start : Machine) : Machine → Prop where
  | refl : Reachable start start
  | step {machine : Machine} (h : Reachable start machine) : Reachable start machine.step.2
  | halt {machine : Machine} (h : Reachable start machine) :
      Reachable start { machine with halted := true }

theorem Reachable.trans {start between machine : Machine} (h : Reachable start between)
    (h' : Reachable between machine) : Reachable start machine := by
  induction h' with
  | refl => exact h
  | step _ ih => exact .step ih
  | halt _ ih => exact .halt ih

/-- What a machine is after up to `units` units it reached by steps. -/
theorem reachable_runUpTo (units : Nat) (machine : Machine) :
    Reachable machine (machine.runUpTo units).2 := by
  induction units generalizing machine with
  | zero =>
    rw [runUpTo]
    split
    · exact .halt .refl
    · exact .refl
  | succ units ih =>
    have hstep : Reachable machine machine.step.2 := .step .refl
    rw [runUpTo]
    split <;> rename_i heq <;> rw [heq] at hstep
    · exact hstep.trans (ih _)
    · exact hstep
    · exact hstep

/-- A run to the end leaves a machine that it reached by steps. -/
theorem reachable_run? {fuel : Nat} {machine after : Machine} {result : Except Failure Unit}
    (h : machine.run? fuel = some (result, after)) : Reachable machine after := by
  have hreach := reachable_runUpTo fuel machine
  unfold run? at h
  split at h <;> rename_i heq <;> rw [heq] at hreach
  · simp only [Option.some.injEq, Prod.mk.injEq] at h
    exact h.2 ▸ hreach
  · simp only [Option.some.injEq, Prod.mk.injEq] at h
    exact h.2 ▸ hreach
  · simp at h

/-- A run that fails has come to a step that fails, and that step is its last. -/
theorem exists_step_of_runUpTo {units : Nat} {machine after : Machine} {failure : Failure}
    (h : machine.runUpTo units = (.failed failure, after)) :
    ∃ last, Reachable machine last ∧ last.step = (.failed failure, after) := by
  induction units generalizing machine with
  | zero =>
    rw [runUpTo] at h
    split at h <;> cases h
  | succ units ih =>
    rw [runUpTo] at h
    split at h
    · rename_i next hstep
      obtain ⟨last, hreach, hlast⟩ := ih h
      have hnext : Reachable machine next := by
        rw [← show machine.step.2 = next from congrArg Prod.snd hstep]
        exact .step .refl
      exact ⟨last, hnext.trans hreach, hlast⟩
    · cases h
    · rename_i hstep
      cases h
      exact ⟨machine, .refl, hstep⟩

theorem exists_step_of_run? {fuel : Nat} {machine after : Machine} {failure : Failure}
    (h : machine.run? fuel = some (.error failure, after)) :
    ∃ last, Reachable machine last ∧ last.step = (.failed failure, after) := by
  unfold run? at h
  split at h
  · cases h
  · rename_i hrun
    cases h
    exact exists_step_of_runUpTo hrun
  · cases h

/-- A run within a budget fails at a step, or for want of budget. -/
theorem exists_step_of_runWithBudget {budget : Nat} {machine after : Machine} {failure : Failure}
    (h : machine.runWithBudget budget = (.error failure, after)) :
    (∃ last, Reachable machine last ∧ last.step = (.failed failure, after)) ∨
      failure.fault = .stepLimit budget := by
  unfold runWithBudget at h
  split at h
  · cases h
  · rename_i hrun
    cases h
    exact .inl (exists_step_of_runUpTo hrun)
  · cases h
    exact .inr rfl

/-- A step keeps the program and the limits. -/
theorem program_limits_step (machine : Machine) :
    machine.step.2.program = machine.program ∧ machine.step.2.limits = machine.limits := by
  rcases step_cases machine with ⟨-, hstep⟩ | ⟨-, -, hstep⟩ | ⟨next, store, -, hstep⟩ |
    ⟨fault, store, -, hstep⟩ <;> rw [hstep] <;> exact ⟨rfl, rfl⟩

/-- Stepping keeps the program and the limits. -/
theorem Reachable.program_limits {start machine : Machine} (h : Reachable start machine) :
    machine.program = start.program ∧ machine.limits = start.limits := by
  induction h with
  | refl => exact ⟨rfl, rfl⟩
  | @step machine _ ih =>
    obtain ⟨hprogram, hlimits⟩ := program_limits_step machine
    exact ⟨hprogram.trans ih.1, hlimits.trans ih.2⟩
  | halt _ ih => exact ih

/-- Variables are given to a machine by a snapshot of them, and nothing else changes. -/
theorem withBindings_eq_ok_iff {machine machine' : Machine} {bindings : Dictionary} :
    machine.withBindings bindings = .ok machine' ↔
      ∃ copies heap, bindings.snapshot machine.limits.nesting machine.store.heap =
          .ok (copies, heap) ∧
        machine' = { machine with store := { machine.store with heap, bindings := copies } } := by
  unfold withBindings
  cases bindings.snapshot machine.limits.nesting machine.store.heap with
  | error fault => simp [bind, Except.bind]
  | ok snapshot =>
    obtain ⟨copies, heap⟩ := snapshot
    constructor
    · intro h
      exact ⟨copies, heap, rfl, (Except.ok.inj h).symm⟩
    · rintro ⟨_, _, hsnapshot, rfl⟩
      cases hsnapshot
      rfl

/-- A machine that was built starts with the first unit of its text, and is not halted. -/
theorem Built.start {code : String} {machine : Machine} (h : Built code machine) :
    machine.program.text = code.toList ∧ machine.position = 0 ∧ machine.halted = false := by
  induction h with
  | onHeap => exact ⟨rfl, rfl, rfl⟩
  | withLimits _ _ ih => exact ih
  | withOrigin _ _ ih => exact ih
  | withBindings _ bindings hok ih =>
    obtain ⟨copies, heap, -, rfl⟩ := withBindings_eq_ok_iff.mp hok
    exact ih
  | withFrames _ _ ih => exact ih

/-- A machine that was built for a text keeps it. -/
theorem Built.text_eq {code : String} {start machine : Machine} (hstart : Built code start)
    (h : Reachable start machine) : machine.program.text = code.toList := by
  rw [h.program_limits.1, hstart.start.1]

end GlyphStack.Machine
