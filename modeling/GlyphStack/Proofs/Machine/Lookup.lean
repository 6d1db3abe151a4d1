import Mathlib.Data.List.TakeWhile
import GlyphStack.Proofs.Machine.Stepping
import GlyphStack.Proofs.Machine.Taking

/-!
How a program reads a variable. A name is written out as a word, which puts it on the stack in lower
case, and `^` takes it off and puts the value of that variable in its place (`runUpTo_lookup`). The
word is the longest run of characters that names are made of, so what stands behind it must not go
on with one; `^` does not.
-/

namespace GlyphStack

open Store

/-! ## 1. Words -/

/-- A name as programs write it: a letter, and letters, digits and underscores behind it. -/
def IsIdentifier (word : String) : Prop :=
  ∃ first rest, word.toList = first :: rest ∧ first.isAlpha = true ∧
    ∀ c ∈ rest, Program.isNameChar c = true

theorem isDigit_of_isAlpha {c : Char} (h : c.isAlpha = true) : c.isDigit = false := by
  have hletter : 'A'.toNat ≤ c.toNat := by
    rcases Bool.or_eq_true_iff.mp h with hupper | hlower
    · exact UInt32.le_iff_toNat_le.mp (of_decide_eq_true hupper).1
    · have hsmall : 'a'.toNat ≤ c.toNat :=
        UInt32.le_iff_toNat_le.mp (of_decide_eq_true (Bool.and_eq_true_iff.mp hlower).1)
      exact Nat.le_trans (by decide) hsmall
  rw [Bool.eq_false_iff]
  intro hdigit
  have hle := Nat.le_trans hletter (Char.isDigit_iff_toNat.mp hdigit).2
  exact absurd hle (by decide)

theorem Instruction.ofChar_of_isAlpha {c : Char} (h : c.isAlpha = true) :
    Instruction.ofChar c = .word := by
  simp [Instruction.ofChar, isDigit_of_isAlpha h, h]

section Units

variable {program : Program} {limits : Limits} {start : Nat} {store : Store}

/-- A word goes onto the stack in lower case, up to the first character that no name has. -/
theorem dispatch_word {word : String} {first : Char} {rest tail : List Char}
    (hletters : word.toList = first :: rest) (hfirst : first.isAlpha = true)
    (hrest : ∀ c ∈ rest, Program.isNameChar c = true)
    (hends : ∀ c ∈ tail.head?, Program.isNameChar c = false)
    (hroom : store.stack.size < limits.stackSize) :
    dispatch program limits start first (rest ++ tail) store =
      .ok (start + word.length) (store.mapStack (·.push (.string (Text.lowercase word)))) := by
  have hstop : tail.takeWhile Program.isNameChar = [] := by
    cases tail with
    | nil => rfl
    | cons c tail => simp [hends c rfl]
  have hword : ∀ c ∈ word.toList, Program.isNameChar c = true := by
    rw [hletters]
    refine List.forall_mem_cons.mpr ⟨?_, hrest⟩
    simp [Program.isNameChar, Char.isAlphanum, hfirst]
  have hrun : Program.nameRun (word.toList ++ tail) = word.length := by
    rw [Program.nameRun, List.takeWhile_append_of_pos hword, hstop, List.append_nil,
      String.length_toList]
  have htake : (word.toList ++ tail).take word.length = word.toList :=
    List.take_left' String.length_toList
  simp only [dispatch, Instruction.ofChar_of_isAlpha hfirst]
  rw [← List.cons_append, ← hletters, hrun, htake, String.ofList_toList,
    Action.bind_of_ok (push_of_lt _ hroom)]
  rfl

/-- `^` puts the value of a variable in the place of its name. -/
theorem dispatch_load {below : Array Value} {name : String} {tail : List Char}
    (hstack : store.stack = below.push (.string name)) (hroom : below.size < limits.stackSize) :
    dispatch program limits start '^' tail store =
      .ok (start + 1) ((store.taking 1).mapStack
        (·.push ((store.bindings.get? name).getD .absent))) := by
  have hroom' : (store.taking 1).stack.size < limits.stackSize := by
    rw [stack_taking_one hstack]
    exact hroom
  have hperform : perform limits '^' .load store = .ok () ((store.taking 1).mapStack
      (·.push ((store.bindings.get? name).getD .absent))) := by
    show (popOne "^" >>= _) store = _
    rw [Action.bind_of_ok (popOne_of_stack_eq "^" hstack)]
    exact push_of_lt _ hroom'
  show (perform limits '^' .load >>= _) store = _
  rw [Action.bind_of_ok hperform]
  rfl

end Units

/-! ## 2. A name and what it stands for -/

namespace Machine

variable {machine : Machine} {word : String} {tail : List Char}

/-- **A program that names a variable gets its value.** Two units take a word and `^`: on top of what
the stack held stands the value of the variable, whose name is the word in lower case, or nothing is
stored under it and the value is absent. -/
theorem runUpTo_lookup (hword : IsIdentifier word) (hrunning : machine.halted = false)
    (hrest : machine.program.rest machine.position = word.toList ++ '^' :: tail)
    (hthere : machine.store.frames.current.index < machine.store.heap.size)
    (hroom : machine.store.stack.size < machine.limits.stackSize) :
    ∃ store : Store,
      store.stack = machine.store.stack.push
        ((machine.store.bindings.get? (Text.lowercase word)).getD .absent) ∧
      store.output = machine.store.output ∧
      ∀ units, machine.runUpTo (units + 2) =
        { machine with store, position := machine.position + (word.length + 1) }.runUpTo units := by
  obtain ⟨first, rest, hletters, hfirst, hnames⟩ := hword
  have hends : ∀ c ∈ ('^' :: tail).head?, Program.isNameChar c = false := by
    rintro c ⟨⟩
    rfl
  have hword := step_of_dispatch hrunning (by rw [hrest, hletters, List.cons_append])
    (dispatch_word hletters hfirst hnames hends hroom)
  generalize hnamed : machine.store.mapStack (·.push (.string (Text.lowercase word))) = named
    at hword
  have hstack : named.stack = machine.store.stack.push (.string (Text.lowercase word)) := by
    rw [← hnamed, stack_mapStack _ hthere]
  have hrest' : machine.program.rest (machine.position + word.length) = '^' :: tail := by
    rw [Program.rest, ← List.drop_drop, ← Program.rest, hrest,
      List.drop_left' String.length_toList]
  have hload : step { machine with store := named, position := machine.position + word.length } =
      (.continued, { machine with
        store := (named.taking 1).mapStack
          (·.push ((named.bindings.get? (Text.lowercase word)).getD .absent))
        position := machine.position + word.length + 1 }) :=
    step_of_dispatch hrunning hrest' (dispatch_load hstack hroom)
  generalize hloaded : (named.taking 1).mapStack
    (·.push ((named.bindings.get? (Text.lowercase word)).getD .absent)) = loaded at hload
  refine ⟨loaded, ?_, ?_, fun units => ?_⟩
  · rw [← hloaded, stack_mapStack, stack_taking_one hstack, ← hnamed, bindings_mapStack]
    simpa [← hnamed, taking] using hthere
  · simp [← hloaded, ← hnamed, taking]
  · rw [runUpTo, hword]
    dsimp only
    rw [runUpTo, hload]
    rfl

/-- If there is nothing else in the text, the program is at its end then. -/
theorem run?_lookup (hword : IsIdentifier word) (hrunning : machine.halted = false)
    (hrest : machine.program.rest machine.position = word.toList ++ ['^'])
    (hthere : machine.store.frames.current.index < machine.store.heap.size)
    (hroom : machine.store.stack.size < machine.limits.stackSize) :
    ∃ after : Machine,
      after.store.stack = machine.store.stack.push
        ((machine.store.bindings.get? (Text.lowercase word)).getD .absent) ∧
      after.store.output = machine.store.output ∧
      ∀ fuel, 2 ≤ fuel → machine.run? fuel = some (.ok (), after) := by
  obtain ⟨store, hstack, houtput, hrun⟩ := runUpTo_lookup hword hrunning hrest hthere hroom
  have hlength : machine.program.length - machine.position = word.length + 1 := by
    have hlength := congrArg List.length hrest
    simpa [Program.rest, Program.length, String.length_toList] using hlength
  have hfinished : isFinished
      { machine with store, position := machine.position + (word.length + 1) } = true := by
    simp only [isFinished, Bool.or_eq_true, decide_eq_true_eq]
    exact .inr (by omega)
  refine ⟨{ machine with store, position := machine.position + (word.length + 1), halted := true },
    hstack, houtput, fun fuel hfuel => ?_⟩
  obtain ⟨units, rfl⟩ := Nat.exists_eq_add_of_le' hfuel
  rw [run?, hrun, runUpTo_of_isFinished hfinished]

end Machine

end GlyphStack
