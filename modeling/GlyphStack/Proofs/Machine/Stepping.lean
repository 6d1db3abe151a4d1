import Mathlib.Logic.Function.Iterate
import GlyphStack.Proofs.Machine.Effect

/-!
Machines after a number of steps, and machines that have come to their end. A finished machine has
no unit left, so a step does nothing but halt it, and nothing can be done to a halted one: however it
is driven on, every step, run and run within a budget answers that it is done and leaves it as it is.
-/

namespace GlyphStack

/-- The failure of a step, if it failed. -/
def StepResult.failure? : StepResult → Option Failure
  | .failed failure => some failure
  | .continued | .done => none

theorem StepResult.failure?_eq_some_iff {result : StepResult} {failure : Failure} :
    result.failure? = some failure ↔ result = .failed failure := by
  cases result <;> simp [failure?]

namespace Machine

variable {machine : Machine}

/-! ## 1. Any number of steps -/

/-- The machine after `k` steps. -/
def stepped (machine : Machine) (k : Nat) : Machine :=
  (fun machine => machine.step.2)^[k] machine

@[simp] theorem stepped_zero (machine : Machine) : machine.stepped 0 = machine := rfl

/-- The first step may be taken out. -/
theorem stepped_succ (machine : Machine) (k : Nat) :
    machine.stepped (k + 1) = machine.step.2.stepped k := rfl

/-- The last step may be taken out. -/
theorem step_stepped (machine : Machine) (k : Nat) :
    (machine.stepped k).step.2 = machine.stepped (k + 1) :=
  (Function.iterate_succ_apply' (fun machine : Machine => machine.step.2) k machine).symm

/-- A change of machines that every step on the way keeps may be made before the steps or behind
them. -/
theorem stepped_comm (change : Machine → Machine) {k : Nat}
    (h : ∀ i < k, (change (machine.stepped i)).step.2 = change (machine.stepped i).step.2) :
    (change machine).stepped k = change (machine.stepped k) := by
  induction k with
  | zero => rfl
  | succ k ih =>
    rw [← step_stepped, ih fun i hi => h i (Nat.lt_succ_of_lt hi), h k (Nat.lt_succ_self k),
      step_stepped]

theorem reachable_stepped (machine : Machine) (k : Nat) : Reachable machine (machine.stepped k) := by
  induction k with
  | zero => exact .refl
  | succ k ih =>
    rw [← step_stepped]
    exact .step ih

/-! ## 2. Finished machines -/

/-- A machine is finished when no unit is left to it. -/
theorem isFinished_iff : machine.isFinished = true ↔ machine.unit? = none := by
  have hrest : machine.program.rest machine.position = [] ↔
      machine.program.length ≤ machine.position := List.drop_eq_nil_iff
  cases hhalted : machine.halted <;> simp [isFinished, unit?, hhalted, hrest]

/-- Where a unit is left, a step carries it out or fails at it. -/
theorem step_ne_done (h : machine.isFinished = false) : machine.step.1 ≠ .done := by
  have hunit : machine.unit? ≠ none := by simp [← isFinished_iff, h]
  rcases step_effect machine with ⟨hnone, -⟩ | ⟨-, -, -, hcontinued | ⟨failure, hfailed, -⟩⟩
  · contradiction
  · simp [hcontinued]
  · simp [hfailed]

/-- A step of a finished machine halts it. -/
theorem step_of_isFinished (h : machine.isFinished = true) :
    machine.step = (.done, { machine with halted := true }) := by
  have hunit := isFinished_iff.mp h
  have hcarries {outcome : EStateM.Result Fault Store Nat} : ¬ machine.Carries outcome := by
    intro hcarries
    obtain ⟨first, tail, -, hsome, -⟩ := hcarries.unit?
    simp [hunit] at hsome
  rcases step_cases machine with ⟨hhalted, hstep⟩ | ⟨-, -, hstep⟩ | ⟨_, _, h, -⟩ | ⟨_, _, h, -⟩
  · rw [hstep, ← hhalted]
  · exact hstep
  · exact absurd h hcarries
  · exact absurd h hcarries

/-- And so does a run of a finished machine. -/
theorem runUpTo_of_isFinished (h : machine.isFinished = true) (units : Nat) :
    machine.runUpTo units = (.finished, { machine with halted := true }) := by
  cases units with
  | zero => rw [runUpTo, if_pos h]
  | succ units => rw [runUpTo, step_of_isFinished h]

/-! ## 3. Halted machines -/

theorem isFinished_of_halted (h : machine.halted = true) : machine.isFinished = true := by
  simp [isFinished, h]

theorem step_of_halted (h : machine.halted = true) : machine.step = (.done, machine) := by
  rw [step_of_isFinished (isFinished_of_halted h), ← h]

/-- A halted machine leads nowhere. -/
theorem Reachable.eq_of_halted {start : Machine} (hreach : Reachable start machine)
    (h : start.halted = true) : machine = start := by
  induction hreach with
  | refl => rfl
  | step _ ih => rw [ih, step_of_halted h]
  | halt _ ih => rw [ih, ← h]

theorem stepped_of_halted (h : machine.halted = true) (k : Nat) : machine.stepped k = machine :=
  (reachable_stepped machine k).eq_of_halted h

theorem runUpTo_of_halted (h : machine.halted = true) (units : Nat) :
    machine.runUpTo units = (.finished, machine) := by
  rw [runUpTo_of_isFinished (isFinished_of_halted h), ← h]

/-- Nothing more can be done to a halted machine: whatever is called answers at once. -/
theorem idle_of_halted (h : machine.halted = true) :
    machine.step = (.done, machine) ∧
      (∀ fuel, machine.run? fuel = some (.ok (), machine)) ∧
      ∀ budget, machine.runWithBudget budget = (.ok (), machine) := by
  refine ⟨step_of_halted h, fun fuel => ?_, fun budget => ?_⟩
  · rw [run?, runUpTo_of_halted h]
  · rw [runWithBudget, runUpTo_of_halted h]

end Machine

end GlyphStack
