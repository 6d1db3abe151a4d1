import GlyphStack.Proofs.Machine.Budget
import GlyphStack.Proofs.Machine.Position
import GlyphStack.Proofs.Program.Extension

/-!
Programs with more text behind them. A program whose text ends in a space, or is empty, and whose run
comes to its end is the first part of every longer program: with more text behind it the same units
are carried out with the same effects, and then the machine stands at the first character of what was
added.

Nothing of this is about stores. A unit sees the text in three ways, by the characters from its start
on, by the ways out of loops and by the table of loops, and each of them has the same answer in the
longer text as long as it has one in the text itself (`dispatch_followedBy`). A run that comes to its
end asks no question without an answer, however often it goes through a loop.
-/

namespace GlyphStack

open Program Store

/-- The program with more text behind it. -/
def Program.followedBy (program : Program) (more : List Char) : Program where
  text := program.text ++ more
  origin := program.origin

/-- Programs with the same text from the same place are the same: the text decides the loops. -/
theorem Program.ext_text {program other : Program} (htext : program.text = other.text)
    (horigin : program.origin = other.origin) : program = other := by
  obtain ⟨text, origin, loops, rfl⟩ := program
  obtain ⟨text', origin', loops', rfl⟩ := other
  cases htext
  cases horigin
  rfl

/-! ## 1. Units -/

section Dispatch

variable {limits : Limits} {start : Nat} {first : Char} {tail more : List Char}

/-- A run at the start of a text is the same characters with more text behind. -/
theorem take_run {p : Char → Bool} :
    (first :: (tail ++ more)).take ((first :: tail).takeWhile p).length =
      (first :: tail).take ((first :: tail).takeWhile p).length := by
  rw [← List.cons_append, List.take_append_of_le_length (List.takeWhile_sublist p).length_le]

/-- A unit that is no brace and no loop exit, and can be read, hangs on nothing behind the text. -/
theorem dispatch_append {program program' : Program} {n : Nat} (hc : ¬ IsControl first)
    (hended : SpaceEnded (first :: tail)) (hread : unitTail first tail = .ok n) :
    dispatch program' limits start first (tail ++ more) =
      dispatch program limits start first tail := by
  have hle := unitTail_le hread
  rw [unitTail_eq_tail] at hread
  cases hI : Instruction.ofChar first <;> simp only [hI, Instruction.tail] at hread <;>
    simp only [dispatch, hI]
  case loopHead => exact absurd (Instruction.isControl_of_ofChar (.inl hI)) hc
  case loopTail => exact absurd (Instruction.isControl_of_ofChar (.inr (.inl hI))) hc
  case leave => exact absurd (Instruction.isControl_of_ofChar (.inr (.inr hI))) hc
  case digits =>
    have hrun : digitRun (first :: (tail ++ more)) = digitRun (first :: tail) :=
      congrArg List.length (hended.takeWhile_append rfl)
    have htake : (first :: (tail ++ more)).take (digitRun (first :: tail)) =
        (first :: tail).take (digitRun (first :: tail)) := take_run
    rw [hrun, htake]
  case word =>
    have hrun : nameRun (first :: (tail ++ more)) = nameRun (first :: tail) :=
      congrArg List.length (hended.takeWhile_append rfl)
    have htake : (first :: (tail ++ more)).take (nameRun (first :: tail)) =
        (first :: tail).take (nameRun (first :: tail)) := take_run
    rw [hrun, htake]
  case character =>
    obtain ⟨c, hread, -⟩ := of_map_eq_ok hread
    rw [← List.cons_append, character_append hread, hread]
  case text =>
    obtain ⟨text, hread⟩ := delimited_of_tail hread
    rw [delimited_append hread, hread]
  case emit =>
    obtain ⟨text, hread⟩ := delimited_of_tail hread
    rw [delimited_append hread, hread]
  case paren =>
    have hlong : parenClose (first :: (tail ++ more)) = .ok n := parenClose_append hread
    rw [hlong, hread]
    show (do push limits (.string (String.ofList ((tail ++ more).take (n - 1)))); _ : Action Nat) = _
    rw [List.take_append_of_le_length (by omega)]
    rfl

/-- What a unit does that is carried out, it does with more text behind the program, too. -/
theorem dispatch_followedBy {program : Program} {store after : Store} {next : Nat}
    (hended : SpaceEnded program.text) (hstart : Boundary program.text start)
    (hrest : program.rest start = first :: tail)
    (h : dispatch program limits start first tail store = .ok next after) :
    dispatch (program.followedBy more) limits start first (tail ++ more) store =
      .ok next after := by
  have hended' : SpaceEnded (first :: tail) := by
    rw [← hrest]
    exact hended.drop start
  by_cases hc : IsControl first
  · rcases hc with rfl | rfl | rfl
    · rw [dispatch_loopHead] at h ⊢
      obtain ⟨condition, between, hpop, h⟩ := Action.bind_eq_ok_iff.mp h
      rw [Action.bind_of_ok hpop]
      by_cases hcondition : condition.isTrue = true
      · rw [if_pos hcondition] at h ⊢
        exact h
      · rw [if_neg hcondition] at h ⊢
        obtain ⟨hexit, rfl⟩ := Action.liftExcept_eq_ok_iff.mp h
        exact Action.liftExcept_eq_ok_iff.mpr ⟨hended.exitFrom_append hexit, rfl⟩
    · rw [dispatch_loopTail] at h ⊢
      obtain ⟨condition, between, hpop, h⟩ := Action.bind_eq_ok_iff.mp h
      rw [Action.bind_of_ok hpop]
      by_cases hcondition : condition.isTrue = true
      · rw [if_pos hcondition] at h ⊢
        obtain ⟨hbody, rfl⟩ := Action.liftExcept_eq_ok_iff.mp h
        rw [program.loops_eq] at hbody
        exact Action.liftExcept_eq_ok_iff.mpr ⟨hended.bodyStart_append hstart hbody, rfl⟩
      · rw [if_neg hcondition] at h ⊢
        exact h
    · rw [dispatch_leave] at h ⊢
      have hrun : leaveRun ('!' :: (tail ++ more)) = leaveRun ('!' :: tail) :=
        congrArg List.length (hended'.takeWhile_append rfl)
      obtain ⟨hexit, rfl⟩ := Action.liftExcept_eq_ok_iff.mp h
      rw [hrun]
      exact Action.liftExcept_eq_ok_iff.mpr ⟨hended.exitFrom_append hexit, rfl⟩
  · cases hread : unitTail first tail with
    | error fault =>
      rw [dispatch_misread hread] at h
      contradiction
    | ok n => rw [dispatch_append hc hended' hread, h]

end Dispatch

namespace Machine

/-! ## 2. Steps -/

/-- The machine with more text behind its program. -/
def followedBy (machine : Machine) (more : List Char) : Machine :=
  { machine with program := machine.program.followedBy more }

/-- A step that goes on goes on with more text behind the program, and leads to the same machine but
for the text. -/
theorem step_followedBy {machine : Machine} (more : List Char)
    (hended : SpaceEnded machine.program.text)
    (hposition : Boundary machine.program.text machine.position)
    (h : machine.step.1 = .continued) :
    (machine.followedBy more).step = (.continued, machine.step.2.followedBy more) := by
  obtain ⟨next, after, hcarries, hstep⟩ := carries_of_continued h
  obtain ⟨first, tail, hrest, hdispatch⟩ := hcarries.dispatch
  have hrest' : (machine.program.followedBy more).rest machine.position =
      first :: (tail ++ more) := by
    show (machine.program.text ++ more).drop machine.position = _
    rw [List.drop_append_of_le_length hposition.le_length]
    exact congrArg (· ++ more) hrest
  have hlonger : dispatch (machine.program.followedBy more) machine.limits machine.position first
      (tail ++ more) machine.store = .ok next after :=
    dispatch_followedBy hended hposition hrest hdispatch
  rw [hstep]
  simp [followedBy, step, hcarries.running, hrest', hlonger]

/-- So it is in every run of a machine that was built for the text. -/
theorem step_followedBy_of_built {code : String} {start : Machine} (hstart : Built code start)
    (hended : SpaceEnded code.toList) (more : List Char) {k : Nat}
    (h : (start.stepped k).step.1 = .continued) :
    ((start.stepped k).followedBy more).step =
      (.continued, (start.stepped (k + 1)).followedBy more) := by
  have hreach := reachable_stepped start k
  have htext := hstart.text_eq hreach
  have hposition := boundary_of_reachable hstart hreach
  rw [← htext] at hended hposition
  rw [step_followedBy more hended hposition h, step_stepped]

/-- As many steps as go on lead to the same machine but for the text. -/
theorem stepped_followedBy {code : String} {start : Machine} (hstart : Built code start)
    (hended : SpaceEnded code.toList) (more : List Char) {k : Nat}
    (h : ∀ i < k, (start.stepped i).step.1 = .continued) :
    (start.followedBy more).stepped k = (start.stepped k).followedBy more := by
  refine stepped_comm (·.followedBy more) fun i hi => ?_
  rw [step_stepped]
  exact congrArg Prod.snd (step_followedBy_of_built hstart hended more (h i hi))

/-- A machine that was built and has only gone on since is not halted. -/
theorem running_of_continued {code : String} {start : Machine} (hstart : Built code start) {k : Nat}
    (h : ∀ i < k, (start.stepped i).step.1 = .continued) : (start.stepped k).halted = false := by
  cases k with
  | zero => exact hstart.start.2.2
  | succ k =>
    obtain ⟨next, after, hcarries, hstep⟩ := carries_of_continued (h k (Nat.lt_succ_self k))
    rw [← step_stepped, hstep]
    exact hcarries.running

/-- At the end of its run a machine stands behind the text that it was built for. -/
theorem EndsAfter.position_eq {code : String} {start after : Machine} {k : Nat}
    (h : start.EndsAfter after k) (hstart : Built code start) :
    (start.stepped k).position = code.toList.length := by
  have hreach := reachable_stepped start k
  have hlength : (start.stepped k).program.length = code.toList.length := by
    rw [Program.length, hstart.text_eq hreach]
  have hfinished := h.finished
  rw [isFinished, running_of_continued hstart h.continued, Bool.false_or, decide_eq_true_eq,
    hlength] at hfinished
  exact le_antisymm (boundary_of_reachable hstart hreach).le_length hfinished

/-! ## 3. Runs -/

/-- The longer program is made ready for its run as the program itself is. -/
theorem prepared_append (host : Heap) (code more : String) (bindings : Dictionary)
    (contents : List (Array Value)) (limits : Limits) :
    prepared host (code ++ more) bindings contents limits =
      (prepared host code bindings contents limits).map (·.followedBy more.toList) := by
  have hprogram : Program.ofString (code ++ more) =
      (Program.ofString code).followedBy more.toList :=
    Program.ext_text String.toList_append rfl
  rw [prepared_eq, prepared_eq, onHeap, hprogram]
  cases bindings.snapshot limits.nesting (Store.onHeap host).heap <;> rfl

/-- **A program runs the same as the first part of a longer one.** The text of the program is empty or
ends in a space. With more text behind it the longer program is made ready for its run as the program
itself is. If the run of a machine that was built for the program comes to its end, after `k` units,
then the first `k` steps of the machine for the longer program all go on, and behind each of them it is
the same machine but for the text: at the same position, with the same storages, open stacks and
variables, and with the same texts sent out. At last it holds the store that the run left, and stands
behind the text of the program. -/
theorem run_of_followedBy {code : String} (hended : SpaceEnded code.toList) (more : String) :
    (∀ host bindings contents limits, prepared host (code ++ more) bindings contents limits =
      (prepared host code bindings contents limits).map (·.followedBy more.toList)) ∧
    ∀ start : Machine, Built code start → ∀ fuel after, start.run? fuel = some (.ok (), after) →
      ∃ k : Nat, start.units = k ∧
        (∀ i < k, ((start.followedBy more.toList).stepped i).step.1 = .continued) ∧
        (∀ i ≤ k, (start.followedBy more.toList).stepped i =
          (start.stepped i).followedBy more.toList) ∧
        ((start.followedBy more.toList).stepped k).store = after.store ∧
        ((start.followedBy more.toList).stepped k).position = code.toList.length := by
  refine ⟨fun host bindings contents limits => prepared_append host code more bindings contents limits,
    fun start hstart fuel after hrun => ?_⟩
  obtain ⟨k, hunits, hends⟩ := endsAfter_of_run? hrun
  have hsame (i : Nat) (hi : i ≤ k) := stepped_followedBy hstart hended more.toList
    fun j hj => hends.continued j (Nat.lt_of_lt_of_le hj hi)
  refine ⟨k, hunits, fun i hi => ?_, hsame, ?_, ?_⟩
  · rw [hsame i hi.le, step_followedBy_of_built hstart hended more.toList (hends.continued i hi)]
  · rw [hsame k (Nat.le_refl k), hends.halted]
    rfl
  · rw [hsame k (Nat.le_refl k)]
    exact hends.position_eq hstart

/-- A loop that is gone through twice, and behind it a loop end and a text that is not closed. -/
theorem run_of_followedBy_loop :
    let code := "\"\"'a'b\x7b`x`\x7d "
    let start := onHeap .empty code
    let longer := start.followedBy "\x7d`y".toList
    SpaceEnded code.toList ∧ ∃ after, start.run? 9 = some (.ok (), after) ∧
      ∃ k : Nat, start.units = k ∧ (∀ i < k, (longer.stepped i).step.1 = .continued) ∧
        (longer.stepped k).store = after.store ∧
        (longer.stepped k).position = code.toList.length := by
  intro code start longer
  have hended : SpaceEnded code.toList := by decide +kernel
  have hrun : (start.run? 9).map (·.1.toOption) = some (some ()) := by decide +kernel
  obtain ⟨⟨result, after⟩, hrun, hshown⟩ := Option.map_eq_some_iff.mp hrun
  cases result with
  | error failure => simp [Except.toOption] at hshown
  | ok =>
    obtain ⟨k, hunits, hcontinued, -, hstore, hposition⟩ :=
      (run_of_followedBy hended "\x7d`y").2 start (.onHeap .empty) 9 after hrun
    exact ⟨hended, after, hrun, k, hunits, hcontinued, hstore, hposition⟩

end Machine

end GlyphStack
