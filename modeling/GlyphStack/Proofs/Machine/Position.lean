import GlyphStack.Proofs.Machine.Dispatch
import GlyphStack.Proofs.Machine.Reachable
import GlyphStack.Proofs.Program.Matching

/-!
A machine reads its text on at boundaries of units only. `Move` lists the four ways in which a unit
says where that is: behind the unit, behind a loop that is passed over, back at the body of a loop,
and behind the loops that are left. Each of them leads from a boundary to a boundary
(`Move.boundary`), so every machine that a host can hold stands at one
(`boundary_of_reachable`).

The table of loops was made by a sweep of its own. Because a machine only asks it at boundaries, the
sweep had read at least as far (`bodyStart_of_boundary`), and a loop end never answers with the
fault of a unit that cannot be read.
-/

namespace GlyphStack

open Program Store

/-! ## 1. Where the text is read on -/

/-- The unit that starts at `start` with `first`, where `tail` follows, may have the text read on at
`next`. -/
inductive Move (text : List Char) (start : Nat) (first : Char) (tail : List Char) :
    (next : Nat) → Prop where
  /-- The text is read on behind the unit. -/
  | past {n : Nat} (h : unitTail first tail = .ok n) : Move text start first tail (start + 1 + n)
  /-- A loop is passed over. -/
  | skip {next : Nat} (hfirst : first = '{') (h : exitFrom text (start + 1) 1 = .ok next) :
      Move text start first tail next
  /-- The body of a loop is taken up again. -/
  | again {next : Nat} (hfirst : first = '}')
      (h : (LoopTable.ofText text).bodyStart start = .ok next) : Move text start first tail next
  /-- As many loops are left as the run of exits is long. -/
  | leave {next : Nat} (hfirst : first = '!')
      (h : exitFrom text (start + leaveRun (first :: tail)) (leaveRun (first :: tail)) = .ok next) :
      Move text start first tail next

/-- Every unit that is carried out has the text read on in one of the four ways. -/
theorem dispatch_move {program : Program} {limits : Limits} {start : Nat} {first : Char}
    {tail : List Char} {store after : Store} {next : Nat}
    (h : dispatch program limits start first tail store = .ok next after) :
    Move program.text start first tail next := by
  by_cases hc : IsControl first
  · have hpast : Move program.text start first tail (start + 1) := .past (unitTail_control hc tail)
    rcases hc with rfl | rfl | rfl
    · rw [dispatch_loopHead] at h
      obtain ⟨condition, between, -, h⟩ := Action.bind_eq_ok_iff.mp h
      split at h
      · cases h
        exact hpast
      · exact .skip rfl (Action.liftExcept_eq_ok_iff.mp h).1
    · rw [dispatch_loopTail] at h
      obtain ⟨condition, between, -, h⟩ := Action.bind_eq_ok_iff.mp h
      split at h
      · rw [program.loops_eq] at h
        exact .again rfl (Action.liftExcept_eq_ok_iff.mp h).1
      · cases h
        exact hpast
    · rw [dispatch_leave] at h
      exact .leave rfl (Action.liftExcept_eq_ok_iff.mp h).1
  · cases hunit : unitTail first tail with
    | error fault =>
      rw [dispatch_misread hunit] at h
      contradiction
    | ok n =>
      obtain ⟨act, -, hact⟩ := dispatch_plain hc hunit
      rw [hact] at h
      obtain ⟨-, between, -, h⟩ := Action.bind_eq_ok_iff.mp h
      cases h
      exact .past hunit

/-! ## 2. Boundaries lead to boundaries -/

/-- A run of loop exits ends at a boundary. -/
theorem Program.Boundary.add_leaveRun {text : List Char} {p : Nat} (h : Boundary text p) :
    Boundary text (p + leaveRun (text.drop p)) := by
  obtain ⟨lexemes, hsweep, -⟩ := sweep_leaveRun text p
  exact h.sweep hsweep

/-- The walk forward comes out behind one of the units. -/
theorem Program.of_loopExit {depth target : Nat} {lexemes : List Lexeme}
    (h : loopExit depth lexemes = some target) : ∃ lexeme ∈ lexemes, lexeme.stop = target := by
  induction lexemes generalizing depth with
  | nil => simp [loopExit] at h
  | cons lexeme rest ih =>
    have later {depth : Nat} (h : loopExit depth rest = some target) :
        ∃ other ∈ lexeme :: rest, other.stop = target := by
      obtain ⟨other, hmem, hstop⟩ := ih h
      exact ⟨other, List.mem_cons_of_mem _ hmem, hstop⟩
    rw [loopExit] at h
    split_ifs at h
    · exact later h
    · exact ⟨lexeme, List.mem_cons_self, Option.some.inj h⟩
    · exact later h
    · exact later h

/-- The way out of loops around a boundary leads to a boundary. -/
theorem Program.Boundary.of_exitFrom {text : List Char} {start depth target : Nat}
    (hstart : Boundary text start) (h : exitFrom text start depth = .ok target) :
    Boundary text target := by
  rcases Nat.eq_zero_or_pos depth with rfl | hd
  · simp only [exitFrom, if_pos, Except.ok.injEq] at h
    exact h ▸ hstart
  · obtain ⟨stop, hsweep, -⟩ := sweep_lexFrom text start
    obtain ⟨lexeme, hmem, rfl⟩ := of_loopExit ((exitFrom_eq_ok_iff hd).mp h)
    exact (hstart.of_mem hsweep hmem).stop (hsweep.unitAt hmem).1

/-- The way back to the body of a loop leads to a boundary, from wherever it is asked. -/
theorem Program.boundary_of_bodyStart {text : List Char} {q target : Nat}
    (h : (LoopTable.ofText text).bodyStart q = .ok target) : Boundary text target := by
  have hfound : (LoopTable.ofText text).bodies.lookup q = some target := by
    unfold LoopTable.bodyStart at h
    split at h
    · split_ifs at h
      cases hfound : (LoopTable.ofText text).bodies.lookup q with
      | none => simp [hfound] at h
      | some body => simpa [hfound] using h
    · rename_i hfound
      rw [hfound, Except.ok.inj h]
    · simp at h
  obtain ⟨-, -, p, rfl, hp, hhead⟩ := of_lookup_bodies hfound
  exact hp.stop (UnitAt.of_getElem? hhead (.inl rfl))

/-- From a boundary every unit has the text read on at a boundary. -/
theorem Move.boundary {text : List Char} {start next : Nat} {first : Char} {tail : List Char}
    (hstart : Boundary text start) (hrest : text.drop start = first :: tail)
    (h : Move text start first tail next) : Boundary text next := by
  cases h with
  | @past n h =>
    have hunit : UnitAt text start { start, first, tail := n } := ⟨rfl, tail, hrest, h⟩
    exact hstart.stop hunit
  | skip hfirst h =>
    have hunit : UnitAt text start { start, first, tail := 0 } :=
      ⟨rfl, tail, hrest, unitTail_control (.inl hfirst) tail⟩
    exact (hstart.stop hunit).of_exitFrom h
  | again hfirst h => exact boundary_of_bodyStart h
  | leave hfirst h =>
    rw [← hrest] at h
    exact hstart.add_leaveRun.of_exitFrom h

/-! ## 3. Every machine stands at a boundary -/

namespace Machine

/-- A step keeps the machine at a boundary. -/
theorem boundary_step {machine : Machine}
    (h : Boundary machine.program.text machine.position) :
    Boundary machine.program.text machine.step.2.position := by
  rcases step_cases machine with ⟨-, hstep⟩ | ⟨-, -, hstep⟩ | ⟨next, store, hcarries, hstep⟩ |
    ⟨fault, store, -, hstep⟩ <;> rw [hstep]
  · exact h
  · exact h
  · obtain ⟨first, tail, hrest, hdispatch⟩ := hcarries.dispatch
    exact (dispatch_move hdispatch).boundary h hrest
  · exact h

theorem boundary_of_reachable {code : String} {start machine : Machine} (hstart : Built code start)
    (h : Reachable start machine) : Boundary code.toList machine.position := by
  obtain ⟨htext, hposition, -⟩ := hstart.start
  rw [← htext]
  induction h with
  | refl => exact hposition ▸ Boundary.zero _
  | @step machine hreach ih =>
    rw [← hreach.program_limits.1] at ih ⊢
    exact boundary_step ih
  | halt _ ih => exact ih

/-- **Machines stand at boundaries of units.** However a machine was built for a text and however
often it was stepped, its position lies in the text and at a boundary of the sweep over it. So where
it stands at a loop end, the way back leads into the loop that this end belongs to, and if there is
none the fault says so: it is never the fault of a unit that cannot be read. -/
theorem position_of_reachable {code : String} {start machine : Machine}
    (hstart : Built code start) (h : Reachable start machine) :
    machine.position ≤ code.toList.length ∧ Boundary code.toList machine.position ∧
      (code.toList[machine.position]? = some '}' →
        (∃ p, IsLoop code.toList p machine.position ∧
          machine.program.loops.bodyStart machine.position = .ok (p + 1)) ∨
        (∀ p, ¬ IsLoop code.toList p machine.position) ∧
          machine.program.loops.bodyStart machine.position =
            .error (.misread machine.position .noLoopHead)) := by
  have hboundary := boundary_of_reachable hstart h
  refine ⟨hboundary.le_length, hboundary, fun _ => ?_⟩
  rw [machine.program.loops_eq, h.program_limits.1, hstart.start.1]
  exact bodyStart_cases hboundary

/-- After three steps a machine stands at the loop end behind a literal that hides a loop head. -/
theorem position_behind_literal :
    let machine := (onHeap .empty "'a\x7b'\x7b\x7d").step.2.step.2.step.2
    Boundary "'a\x7b'\x7b\x7d".toList 5 ∧ machine.program.loops.bodyStart 5 = .ok 3 := by
  intro machine
  have hreach : Reachable (onHeap .empty "'a\x7b'\x7b\x7d") machine := .step (.step (.step .refl))
  have hposition : machine.position = 5 := by decide +kernel
  obtain ⟨-, hboundary, hbody⟩ := position_of_reachable (.onHeap .empty) hreach
  rw [hposition] at hboundary hbody
  refine ⟨hboundary, ?_⟩
  obtain ⟨p, hloop, hstart⟩ | ⟨hnone, -⟩ := hbody rfl
  · have hpair := lookup_bodies_iff_isLoop.mpr hloop
    have : (LoopTable.ofText "'a\x7b'\x7b\x7d".toList).bodies.lookup 5 = some 3 := by
      decide +kernel
    rw [hpair] at this
    rw [hstart, Option.some.inj this]
  · exact absurd (lookup_bodies_iff_isLoop.mp (by decide +kernel)) (hnone 2)

end Machine

end GlyphStack
