import GlyphStack.Machine.Dispatch

/-!
The machine: a program, the limits it runs under, its store, and how far it is. One step carries out
one unit of the program text.
-/

namespace GlyphStack

/-- A program in the middle of its run; `position` is where the next unit starts. A machine that is
halted is done for good. -/
structure Machine where
  program : Program
  limits : Limits := {}
  store : Store
  position : Nat := 0
  halted : Bool := false

/-- How a step ended. -/
inductive StepResult where
  /-- A unit was carried out. -/
  | continued
  /-- There was nothing to do: the text is at its end, or the machine was halted. -/
  | done
  /-- A unit failed, which halts the machine. Where its fault is a crash there is no host left to go
  on, and the machine counts as halted too. -/
  | failed (failure : Failure)

namespace Machine

/-- A machine before its first step, on a heap that may hold arrays of its host. -/
def onHeap (heap : Heap) (code : String) : Machine where
  program := .ofString code
  store := .onHeap heap

/-- The machine under other limits. -/
def withLimits (machine : Machine) (limits : Limits) : Machine :=
  { machine with limits }

/-- The machine with its program from another place. -/
def withOrigin (machine : Machine) (origin : Origin) : Machine :=
  { machine with program := machine.program.withOrigin origin }

/-- The machine with private copies of a host's variables in place of its own. -/
def withBindings (machine : Machine) (bindings : Dictionary) : Except Fault Machine := do
  let (bindings, heap) ← bindings.snapshot machine.limits.nesting machine.store.heap
  return { machine with store := { machine.store with heap, bindings } }

/-- The machine with new stacks, outermost first. -/
def withFrames (machine : Machine) (contents : List (Array Value)) : Machine :=
  { machine with store := machine.store.withFrames contents }

/-- Whether no unit is left to carry out. -/
def isFinished (machine : Machine) : Bool :=
  machine.halted || machine.program.length ≤ machine.position

/-- The texts sent out so far, and the machine without them. -/
def takeOutput : Machine → Array String × Machine
  | { program, limits, store := { heap, frames, bindings, output }, position, halted } =>
      (output, { program, limits, store := { heap, frames, bindings, output := #[] }, position,
                 halted })

/-- The failure of a fault at a position of the program text. -/
def failureAt (program : Program) (position : Nat) (fault : Fault) : Failure :=
  Failure.through { fault } (program.traceFrame position)

/-- Carries out one unit. -/
def step (machine : Machine) : StepResult × Machine :=
  match machine with
  | { program, limits, store, position, halted } =>
      if halted then (.done, { program, limits, store, position, halted })
      else
        match program.rest position with
        | [] => (.done, { program, limits, store, position, halted := true })
        | first :: tail =>
            match dispatch program limits position first tail store with
            | .ok next store => (.continued, { program, limits, store, position := next, halted })
            | .error fault store =>
                (.failed (failureAt program position fault),
                  { program, limits, store, position, halted := true })

end Machine

end GlyphStack
