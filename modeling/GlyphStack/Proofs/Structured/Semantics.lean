import GlyphStack.Proofs.Machine.Dispatch
import GlyphStack.Proofs.Structured.Block

/-!
What blocks do, said without positions. The behaviour of a block is put together from the behaviours
of its parts: a loop takes a condition off the stack, and while that is true it carries out its body
and takes the next condition off; a run of `n` exits leaves `n` loops, and every loop that is left
takes one off the count. Units that are no braces and no exits do what `dispatch` does.
-/

namespace GlyphStack

open Program Store

/-! ## 1. Outcomes -/

/-- How a part of a program comes to its end. -/
inductive Outcome where
  | normal
  /-- So many of the loops around the part are left. -/
  | leave (count : Nat)
  | fault (cause : Fault)

/-- What comes of an outcome of the body for the loop around it. -/
def Outcome.outOfLoop : Outcome → Outcome
  | .leave count => if count ≤ 1 then .normal else .leave (count - 1)
  | outcome => outcome

/-- The kinds of fault, without the details. -/
inductive FaultKind where
  | arity
  | type
  | misread
  | stackOverflow
  | frameOverflow
  | nesting
  | stepLimit
  | unsupported
  | internal
  | crash
deriving DecidableEq, Repr

def Fault.kind : Fault → FaultKind
  | .arity .. => .arity
  | .type .. => .type
  | .misread .. => .misread
  | .stackOverflow _ => .stackOverflow
  | .frameOverflow _ => .frameOverflow
  | .nesting _ => .nesting
  | .stepLimit _ => .stepLimit
  | .unsupported _ => .unsupported
  | .internal _ => .internal
  | .crash => .crash

/-- The kind of fault with which a whole program ends. There is no loop around it to leave, so the
text is at fault where it asks for that. -/
def Outcome.faultKind? : Outcome → Option FaultKind
  | .normal => none
  | .leave _ => some .misread
  | .fault cause => some cause.kind

/-! ## 2. Behaviours -/

/-- What a part of a program may do: the store before it, how it ends, and the store after it. -/
abbrev Behaviour := Store → Outcome → Store → Prop

namespace Behaviour

/-- Nothing is done to the store. -/
def ends (outcome : Outcome) : Behaviour := fun store other after =>
  other = outcome ∧ after = store

/-- An action is carried out, and what it answers decides how it goes on. -/
def afterAction {α : Type} (act : Action α) (next : α → Behaviour) : Behaviour :=
  fun store outcome after =>
    match act store with
    | .ok a between => next a between outcome after
    | .error fault between => outcome = .fault fault ∧ after = between

/-- One part follows the other, if that ends normally. -/
inductive AndThen (part next : Behaviour) : Store → Outcome → Store → Prop where
  | normal {store between after : Store} {outcome : Outcome} (hpart : part store .normal between)
      (hnext : next between outcome after) : AndThen part next store outcome after
  | other {store after : Store} {outcome : Outcome} (hpart : part store outcome after)
      (hother : outcome ≠ .normal) : AndThen part next store outcome after

/-- The body of a loop is carried out, again and again while the conditions at its end are true. -/
inductive Repeats (body : Behaviour) : Store → Outcome → Store → Prop where
  | other {store after : Store} {outcome : Outcome} (hbody : body store outcome after)
      (hother : outcome ≠ .normal) : Repeats body store outcome.outOfLoop after
  | fault {store between after : Store} {cause : Fault} (hbody : body store .normal between)
      (hpop : popOne "\x7d" between = .error cause after) : Repeats body store (.fault cause) after
  | finish {store between after : Store} {condition : Value}
      (hbody : body store .normal between) (hpop : popOne "\x7d" between = .ok condition after)
      (hfalse : condition.isTrue = false) : Repeats body store .normal after
  | again {store between next after : Store} {condition : Value} {outcome : Outcome}
      (hbody : body store .normal between) (hpop : popOne "\x7d" between = .ok condition next)
      (htrue : condition.isTrue = true) (hagain : Repeats body next outcome after) :
      Repeats body store outcome after

/-- A loop with what follows it: a condition is taken off, and if it is false the body is passed
over. -/
def loop (body rest : Behaviour) : Behaviour :=
  afterAction (popOne "\x7b") fun condition =>
    if condition.isTrue then AndThen (Repeats body) rest else rest

/-- A loop that is left on the way to a loop further out leaves at least one more. -/
theorem Repeats.count_pos {body : Behaviour} {store after : Store} {outcome : Outcome}
    (h : Repeats body store outcome after) {count : Nat} (hcount : outcome = .leave count) :
    1 ≤ count := by
  induction h with
  | @other _ _ inner _ _ =>
    cases inner with
    | normal => simp [Outcome.outOfLoop] at hcount
    | leave k =>
      simp only [Outcome.outOfLoop] at hcount
      split_ifs at hcount
      cases hcount
      omega
    | fault => simp [Outcome.outOfLoop] at hcount
  | fault => simp at hcount
  | finish => simp at hcount
  | again _ _ _ _ ih => exact ih hcount

end Behaviour

open Behaviour

/-- What a block of a program does under given limits. -/
def Program.Block.behaviour (program : Program) (limits : Limits) : Block → Behaviour
  | .done => ends .normal
  | .unit lexeme rest =>
      afterAction (dispatch program limits lexeme.start lexeme.first
        (program.rest (lexeme.start + 1))) fun _ => rest.behaviour program limits
  | .leave count _ => ends (.leave count)
  | .loop body rest =>
      Behaviour.loop (body.behaviour program limits) (rest.behaviour program limits)

end GlyphStack
