import GlyphStack.Machine.Basic

/-!
Runs: steps one after the other until the program ends or fails, or until a number of units is used
up.
-/

namespace GlyphStack

/-- How a run ended. -/
inductive Ending where
  /-- The program came to its end. -/
  | finished
  /-- A unit failed. -/
  | failed (failure : Failure)
  /-- The units of the run are used up and the program is not at its end. -/
  | unfinished

namespace Machine

/-- Carries out up to `units` units. A program whose text is used up together with the units has
come to its end. -/
def runUpTo : (units : Nat) → Machine → Ending × Machine
  | 0, machine =>
      if machine.isFinished then (.finished, { machine with halted := true })
      else (.unfinished, machine)
  | units + 1, machine =>
      match machine.step with
      | (.continued, machine) => machine.runUpTo units
      | (.done, machine) => (.finished, machine)
      | (.failed failure, machine) => (.failed failure, machine)

/-- Runs until the program ends or fails; there is no answer if that takes more than `fuel`
units. -/
def run? (fuel : Nat) (machine : Machine) : Option (Except Failure Unit × Machine) :=
  match machine.runUpTo fuel with
  | (.finished, machine) => some (.ok (), machine)
  | (.failed failure, machine) => some (.error failure, machine)
  | (.unfinished, _) => none

/-- Halts a machine because its budget is used up. -/
def outOfBudget (budget : Nat) (machine : Machine) : Except Failure Unit × Machine :=
  (.error (failureAt machine.program machine.position (.stepLimit budget)),
    { machine with halted := true })

/-- Runs until the program ends or fails, or the budget is used up. The budget is looked at after a
unit, so one unit is carried out in any case. -/
def runWithBudget (budget : Nat) (machine : Machine) : Except Failure Unit × Machine :=
  match machine.runUpTo (max budget 1) with
  | (.finished, machine) => (.ok (), machine)
  | (.failed failure, machine) => (.error failure, machine)
  | (.unfinished, machine) => machine.outOfBudget budget

/-- Runs a program with a host's variables under the usual limits: what it leaves on the current
stack, or its failure, and the store it leaves. There is no answer if it takes more than `fuel`
units. -/
def eval? (fuel : Nat) (heap : Heap) (code : String) (bindings : Dictionary) :
    Option (Except Failure (Array Value) × Store) :=
  match (onHeap heap code).withBindings bindings with
  | .error fault => some (.error { fault }, .onHeap heap)
  | .ok machine =>
      (machine.run? fuel).map fun (result, machine) =>
        (result.map fun _ => machine.store.stack, machine.store)

end Machine

end GlyphStack
