import GlyphStack.Proofs.Store.Items
import GlyphStack.Proofs.Value.Reversal

/-!
What operations need of their operands. Operands that pass their check are the top of the stack as
it stands, the deepest first, and every one is what was expected; so what an operation takes can be
read off the stack, and an operand that had to be an array is one. Where the check fails, and where
two values cannot be compared, the fault is the program's and not the machine's, and it is answered.
-/

namespace GlyphStack

/-- The fault is one that a program can meet: no check of the machine itself has failed. -/
def Fault.External (fault : Fault) : Prop :=
  ∀ text, fault ≠ .internal text

/-- The fault comes back as an answer: it is one that a program can meet, and not one that brings the
host down. -/
def Fault.Answered : Fault → Prop
  | .internal _ | .crash => False
  | _ => True

theorem Fault.Answered.external {fault : Fault} (h : fault.Answered) : fault.External := by
  rintro text rfl
  exact h

theorem Fault.Answered.ne_crash {fault : Fault} (h : fault.Answered) : fault ≠ .crash := by
  rintro rfl
  exact h

/-! ## 1. Operands -/

/-- If nothing mismatches, every operand meets its expectation. -/
theorem accepts_of_firstMismatch {index : Nat} {types : List Expected} {operands : List Value}
    (h : firstMismatch index types operands = none) {i : Nat} (hi : i < types.length)
    (hi' : i < operands.length) : types[i].accepts operands[i] = true := by
  induction types generalizing index operands i with
  | nil => simp at hi
  | cons expected types ih =>
    cases operands with
    | nil => simp at hi'
    | cons v operands =>
      rw [firstMismatch] at h
      split at h
      · rename_i haccepts
        cases i with
        | zero => exact haccepts
        | succ i => exact ih h (by simpa using hi) (by simpa using hi')
      · contradiction

theorem exists_of_accepts_array {v : Value} (h : (Expected.kind .array).accepts v = true) :
    ∃ ref, v = .array ref := by
  cases v with
  | array ref => exact ⟨ref, rfl⟩
  | string => simp [Expected.accepts, Value.kind] at h
  | number => simp [Expected.accepts, Value.kind] at h
  | absent => simp [Expected.accepts, Value.kind] at h

/-- An operand that is unwrapped as an array is that array. -/
theorem Value.eq_of_expectArray {operation : String} {v : Value} {ref : Ref}
    (h : v.expectArray operation = .ok ref) : v = .array ref := by
  cases v with
  | array other => exact congrArg Value.array (Except.ok.inj h)
  | string => contradiction
  | number => contradiction
  | absent => contradiction

section Operands

variable {n : Nat} {heap : Heap} {operation : String} {types : Vector Expected n}
  {stack : Array Value}

/-- Operands that pass the check are the top of the stack, and what stands below them stays. -/
theorem of_operandsOf {operands : Vector Value n}
    (h : operandsOf heap operation types stack = .ok operands) :
    stack = stack.shrink (stack.size - n) ++ operands.toArray ∧
      ∀ i (hi : i < n), types[i].accepts operands[i] = true := by
  unfold operandsOf at h
  split at h
  · rename_i enough
    dsimp only at h
    split at h
    · rename_i hmatch
      cases h
      refine ⟨?_, fun i hi => ?_⟩
      · rw [Array.shrink_eq_take]
        simp
      · have haccepts := accepts_of_firstMismatch hmatch (i := i) (by simpa using hi)
          (by simp; omega)
        simpa using haccepts
    · contradiction
  · contradiction

/-- A failed check is the program's fault. -/
theorem answered_of_operandsOf {fault : Fault}
    (h : operandsOf heap operation types stack = .error fault) : fault.Answered := by
  unfold operandsOf at h
  split at h
  · dsimp only at h
    split at h
    · contradiction
    · cases h
      exact trivial
  · cases h
    exact trivial

end Operands

/-! ## 2. Comparison -/

/-- Values that cannot be compared lie too deep in each other. -/
theorem Heap.answered_of_compareWithin {heap : Heap} {limit depth : Nat} {a b : Value}
    {fault : Fault} (h : heap.compareWithin limit depth a b = .error fault) : fault.Answered := by
  rcases compareWithin_nesting_or_ok heap limit depth a b with hnesting | ⟨answer, hanswer⟩
  · rw [hnesting] at h
    cases h
    exact trivial
  · rw [hanswer] at h
    contradiction

end GlyphStack
