import Mathlib.Data.List.TakeWhile
import GlyphStack.Proofs.Machine.Effect
import GlyphStack.Proofs.Number.Numeral

/-!
The machine never fails one of its own checks. Some of these checks the types already settle: there
is always a current stack, and an operation that takes `n` operands gets a vector of `n`. Three
remain, and each one is passed because of a check or a table elsewhere: an operand is unwrapped as
an array only after it was checked to be one, a run of digits is read only where the unit is known
to be one, and an operator is applied only to units whose character stands for it.

How many stacks are open is bounded on the way: one at least, and no more than there were to begin
with, unless the limit lies above that.
-/

namespace GlyphStack

open Store

/-! ## 1. Units that are read a second time -/

/-- The characters of a unit of digits are a numeral, the one whose value the unit pushes. -/
theorem read?_digitRun {first : Char} (h : Instruction.ofChar first = .digits) (tail : List Char) :
    let digits := (first :: tail).take (Program.digitRun (first :: tail))
    Number.Numeral.read? digits =
      some { negative := false, digits := Number.Numeral.spelled digits, exponent := 0 } := by
  have hfirst := Instruction.isDigit_of_ofChar h
  have hrun : (first :: tail).take (Program.digitRun (first :: tail)) =
      first :: tail.takeWhile Char.isDigit := by
    rw [← List.takeWhile_cons_of_pos hfirst]
    exact (List.prefix_iff_eq_take.mp (List.takeWhile_prefix _)).symm
  rw [hrun]
  refine Number.Numeral.read?_of_isDigit fun d hd => ?_
  rcases List.mem_cons.mp hd with rfl | hd
  · exact hfirst
  · exact List.mem_takeWhile_imp hd

/-- The character of an arithmetic unit is the symbol of its operator. -/
theorem ofSymbol?_of_ofChar {first : Char} {operator : Operator}
    (h : Instruction.ofChar first = .arithmetic operator) :
    Operator.ofSymbol? first = some operator := by
  unfold Instruction.ofChar at h
  split_ifs at h
  split at h <;> cases h <;> rfl

namespace Machine

/-! ## 2. How many stacks are open -/

/-- A unit leaves no more stacks open than there were, unless there is room for one more. -/
theorem depth_le_of_effect {limits : Limits} {base after : Store} {instruction : Instruction}
    (h : Effect limits base instruction after) :
    after.frames.depth ≤ max base.frames.depth limits.frameDepth := by
  rcases h.frames_cases with hsame | ⟨hroom, ref, hopened, -⟩ | ⟨-, hclosed⟩
  · rw [hsame]
    exact Nat.le_max_left _ _
  · rw [hopened, Frames.depth_openOne]
    omega
  · rcases hclosed with hclose | ⟨-, hsingle, -⟩
    · have hdepth : after.frames.depth + 1 = base.frames.depth := by
        rw [← Frames.length_toList, ← Frames.length_toList, Frames.toList_of_closeOne? hclose,
          List.length_append, List.length_singleton]
      omega
    · have hdepth : after.frames.depth = 1 := by
        rw [hsingle]
        rfl
      have hpos : 1 ≤ base.frames.depth := Nat.le_add_left 1 _
      omega

theorem Reachable.depth_le {start machine : Machine} (h : Reachable start machine) :
    machine.store.frames.depth ≤ max start.store.frames.depth start.limits.frameDepth := by
  refine h.invariant (motive := fun store => store.frames.depth ≤ _) (Nat.le_max_left _ _) ?_
  intro base after instruction heffect hbase
  have hdepth := depth_le_of_effect heffect
  omega

/-! ## 3. Faults -/

/-- No step fails one of the machine's own checks. -/
theorem external_of_step {machine : Machine} {failure : Failure}
    (h : machine.step.1 = .failed failure) : failure.fault.External := by
  obtain ⟨-, -, hanswered | ⟨hcrash, -⟩⟩ := fault_of_step h
  · exact hanswered.external
  · exact fun _ => by simp [hcrash]

/-- A run fails where one of its steps fails. -/
theorem external_of_run? {fuel : Nat} {machine after : Machine} {failure : Failure}
    (h : machine.run? fuel = some (.error failure, after)) : failure.fault.External := by
  obtain ⟨last, -, hstep⟩ := exists_step_of_run? h
  exact external_of_step (congrArg Prod.fst hstep)

/-- A run within a budget fails where one of its steps fails, or for want of budget. -/
theorem external_of_runWithBudget {budget : Nat} {machine : Machine} {failure : Failure}
    (h : (machine.runWithBudget budget).1 = .error failure) : failure.fault.External := by
  obtain ⟨last, -, hstep⟩ | hbudget := exists_step_of_runWithBudget (Prod.ext h rfl)
  · exact external_of_step (congrArg Prod.fst hstep)
  · exact fun _ => by simp [hbudget]

/-- **No check of the machine itself ever fails.** Wherever a run has led, one stack at least is
open, no more of them than there were at the start or may be opened, and the last one is the current
stack. No step, no run and no run within a budget fails with an internal fault from there, and the
unit that comes next is a numeral if it is read as one, and stands for the operator it is taken
for. -/
theorem fault_external_of_reachable {start machine : Machine} (h : Reachable start machine) :
    (1 ≤ machine.store.frames.depth ∧
      machine.store.frames.depth ≤ max start.store.frames.depth machine.limits.frameDepth ∧
      machine.store.frames.toList.getLast? = some machine.store.frames.current) ∧
    (∀ failure, machine.step.1 = .failed failure → failure.fault.External) ∧
    (∀ fuel failure after, machine.run? fuel = some (.error failure, after) →
      failure.fault.External) ∧
    (∀ budget failure, (machine.runWithBudget budget).1 = .error failure →
      failure.fault.External) ∧
    ∀ first tail, machine.program.rest machine.position = first :: tail →
      (Instruction.ofChar first = .digits →
        let digits := (first :: tail).take (Program.digitRun (first :: tail))
        Number.Numeral.read? digits =
          some { negative := false, digits := Number.Numeral.spelled digits, exponent := 0 }) ∧
      ∀ operator, Instruction.ofChar first = .arithmetic operator →
        Operator.ofSymbol? first = some operator := by
  have hcurrent : machine.store.frames.toList.getLast? = some machine.store.frames.current := by
    simp [Frames.toList]
  have hdepth : machine.store.frames.depth ≤
      max start.store.frames.depth machine.limits.frameDepth := by
    rw [h.program_limits.2]
    exact h.depth_le
  refine ⟨⟨Nat.le_add_left 1 _, hdepth, hcurrent⟩, fun _ => external_of_step,
    fun _ _ _ => external_of_run?, fun _ _ => external_of_runWithBudget, ?_⟩
  intro first tail _
  exact ⟨fun hdigits => read?_digitRun hdigits tail, fun _ => ofSymbol?_of_ofChar⟩

/-- After `]` closed the only stack, the machine fails at `,` for want of operands. -/
theorem fault_external_behind_bracket :
    let machine := (onHeap .empty "],").step.2
    machine.store.frames.depth = 1 ∧
      ∃ failure, machine.step.1 = .failed failure ∧ failure.fault.External := by
  intro machine
  have hreach : Reachable (onHeap .empty "],") machine := .step .refl
  have hfails : (match machine.step.1 with
      | .failed _ => true
      | _ => false) = true := by decide +kernel
  refine ⟨by decide +kernel, ?_⟩
  cases hresult : machine.step.1 with
  | failed failure => exact ⟨failure, rfl, (fault_external_of_reachable hreach).2.1 _ hresult⟩
  | continued =>
    rw [hresult] at hfails
    contradiction
  | done =>
    rw [hresult] at hfails
    contradiction

end Machine

end GlyphStack
