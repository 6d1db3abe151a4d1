import GlyphStack.Proofs.Machine.Budget
import GlyphStack.Proofs.Machine.Position
import GlyphStack.Proofs.Machine.Taking

/-!
Only loops run forever. A unit takes at least one character, a loop that is passed over or left ends
behind the position where the walk starts, and a run of loop exits is not empty. So a step that does
not halt the machine leads forward in the text, with one exception: a loop end whose condition is true
leads back behind the head of its loop (`dispatch_forward_or_again`). That the fault of a unit that
cannot be read never comes up there is known from the boundaries (`bodyStart_cases`).

Where the table of a text has no loop, the exception does not come up. The position is then at least
the number of steps, until the machine is finished (`le_position_stepped`), so the run is at its end
after as many steps as the text has characters.

How it ends is another matter. An instruction that changes an array cannot read it for its index
meanwhile, and where the two are one array the host goes down instead of being answered a failure.
That happens there and nowhere else (`crash_iff_indexesItself`), in texts without a loop as well
(`crash_without_loop`).
-/

namespace GlyphStack

open Program Store

/-! ## 1. Ways forward -/

/-- The way out of loops leads forward in the text. -/
theorem Program.exitFrom_bounds {text : List Char} {start depth target : Nat} (hd : 1 ≤ depth)
    (h : exitFrom text start depth = .ok target) : start < target ∧ target ≤ text.length := by
  obtain ⟨stop, hsweep, -⟩ := sweep_lexFrom text start
  obtain ⟨lexeme, hmem, rfl⟩ := of_loopExit ((exitFrom_eq_ok_iff hd).mp h)
  obtain ⟨hunit, hle, -⟩ := hsweep.unitAt hmem
  exact ⟨Nat.lt_of_le_of_lt hle hunit.lt_stop, hunit.stop_le⟩

/-- Every unit but a loop end has the text read on further forward. -/
theorem Move.forward {text tail : List Char} {start next : Nat} {first : Char}
    (hrest : text.drop start = first :: tail) (hfirst : first ≠ '}')
    (h : Move text start first tail next) : start < next ∧ next ≤ text.length := by
  cases h with
  | @past n h =>
    have hunit : UnitAt text start { start, first, tail := n } := ⟨rfl, tail, hrest, h⟩
    exact ⟨hunit.lt_stop, hunit.stop_le⟩
  | skip _ h =>
    obtain ⟨hlt, hle⟩ := exitFrom_bounds (Nat.le_refl 1) h
    exact ⟨Nat.lt_of_succ_lt hlt, hle⟩
  | again hagain _ => exact absurd hagain hfirst
  | leave hleave h =>
    have hpos : 1 ≤ leaveRun (first :: tail) := by
      rw [leaveRun_cons, if_pos hleave]
      exact Nat.le_add_left 1 _
    obtain ⟨hlt, hle⟩ := exitFrom_bounds hpos h
    exact ⟨Nat.lt_of_le_of_lt (Nat.le_add_right _ _) hlt, hle⟩

/-- A unit that is carried out has the text read on further forward, or it is a loop end that has
taken a true condition off the stack and asks for the body of its loop. -/
theorem dispatch_forward_or_again {program : Program} {limits : Limits} {start next : Nat}
    {first : Char} {tail : List Char} {store after : Store}
    (hrest : program.rest start = first :: tail)
    (h : dispatch program limits start first tail store = .ok next after) :
    (start < next ∧ next ≤ program.length) ∨
      first = '}' ∧ program.loops.bodyStart start = .ok next ∧
        ∃ (below : Array Value) (condition : Value),
          store.stack = below.push condition ∧ condition.isTrue = true := by
  by_cases hfirst : first = '}'
  · subst hfirst
    rw [dispatch_loopTail] at h
    obtain ⟨condition, between, hpop, h⟩ := Action.bind_eq_ok_iff.mp h
    have hends : Ends (popOne "\x7d" store) _ fun _ _ => True := ends_popOne fun _ _ => trivial
    obtain ⟨-, below, hstack⟩ := hends.of_ok hpop
    split at h
    · rename_i htrue
      exact .inr ⟨rfl, (Action.liftExcept_eq_ok_iff.mp h).1, below, condition, hstack, htrue⟩
    · cases h
      have hunit : UnitAt program.text start { start, first := '}', tail := 0 } :=
        ⟨rfl, tail, hrest, unitTail_control (.inr (.inl rfl)) tail⟩
      exact .inl ⟨hunit.lt_stop, hunit.stop_le⟩
  · exact .inl ((dispatch_move h).forward hrest hfirst)

/-- Where the table is empty the text has no loop. -/
theorem Program.not_isLoop_of_isEmpty {text : List Char} {p q : Nat}
    (h : (LoopTable.ofText text).isEmpty = true) : ¬ IsLoop text p q := by
  intro hloop
  have hfound := lookup_bodies_iff_isLoop.mpr hloop
  rw [List.isEmpty_iff.mp h] at hfound
  contradiction

/-! ## 2. Steps -/

namespace Machine

variable {code : String} {start machine : Machine}

/-- The machine stands at the end of the loop that has its head at `p`, with a true condition on top
of the stack. -/
structure Repeats (machine : Machine) (p : Nat) : Prop where
  loopTail : machine.program.text[machine.position]? = some '}'
  condition : ∃ (below : Array Value) (v : Value),
    machine.store.stack = below.push v ∧ v.isTrue = true
  loop : IsLoop machine.program.text p machine.position

/-- A step leaves a halted machine, leads forward in the text, or takes up the body of a loop again. -/
theorem step_progress (hboundary : Boundary machine.program.text machine.position) :
    machine.step.2.halted = true ∨
      (machine.position < machine.step.2.position ∧
        machine.step.2.position ≤ machine.program.length) ∨
      ∃ p, machine.Repeats p ∧ machine.step.2.position = p + 1 := by
  rcases step_cases machine with ⟨hhalted, hstep⟩ | ⟨-, -, hstep⟩ | ⟨next, store, hcarries, hstep⟩ |
    ⟨fault, store, -, hstep⟩ <;> rw [hstep]
  · exact .inl hhalted
  · exact .inl rfl
  · obtain ⟨first, tail, hrest, hdispatch⟩ := hcarries.dispatch
    rcases dispatch_forward_or_again hrest hdispatch with hforward | ⟨rfl, hbody, hcondition⟩
    · exact .inr (.inl hforward)
    · rw [machine.program.loops_eq] at hbody
      rcases bodyStart_cases hboundary with ⟨p, hloop, hfound⟩ | ⟨-, hnone⟩
      · have hnext : next = p + 1 := Except.ok.inj (hbody.symm.trans hfound)
        have hget := Program.getElem?_of_drop_eq_cons hrest
        exact .inr (.inr ⟨p, ⟨hget, hcondition, hloop⟩, hnext⟩)
      · rw [hnone] at hbody
        contradiction
  · exact .inl rfl

/-! ## 3. Crashes -/

/-- The next unit changes an array that is its own index. -/
def IndexesItself (machine : Machine) : Prop :=
  ∃ instruction, machine.unit? = some instruction ∧ machine.store.IndexesItself instruction

/-- Where the array is its own index the instruction takes its operands off and fails over it. -/
theorem dispatch_of_indexesItself (program : Program) (limits : Limits) (start : Nat) {first : Char}
    (tail : List Char) {store : Store} (h : store.IndexesItself (Instruction.ofChar first)) :
    ∃ after, dispatch program limits start first tail store = .error .crash after := by
  obtain ⟨instruction, hinstruction⟩ : ∃ instruction, Instruction.ofChar first = instruction :=
    ⟨_, rfl⟩
  rw [hinstruction] at h
  cases h with
  | @set below ref v hstack =>
    refine ⟨store.taking 3, ?_⟩
    simp only [dispatch, hinstruction]
    refine Action.bind_of_error ((Action.bind_of_ok
      (popArrayIndexValue_of_stack_eq ";" hstack)).trans ?_)
    exact Action.bind_of_error (by rw [indexInto_self]; rfl)
  | @delete below ref hstack =>
    refine ⟨store.taking 2, ?_⟩
    simp only [dispatch, hinstruction]
    refine Action.bind_of_error ((Action.bind_of_ok
      (popArrayIndex_of_stack_eq "$" hstack)).trans ?_)
    exact Action.bind_of_error (by rw [indexInto_self]; rfl)

theorem Carries.eq_crash_of_indexesItself {outcome : EStateM.Result Fault Store Nat}
    (h : machine.Carries outcome) (hself : machine.IndexesItself) :
    ∃ after, outcome = .error .crash after := by
  obtain ⟨first, tail, -, hfirst, rfl⟩ := h.unit?
  obtain ⟨instruction, hunit, hself⟩ := hself
  cases hunit.symm.trans hfirst
  exact dispatch_of_indexesItself machine.program machine.limits machine.position tail hself

/-- **The host goes down exactly where an array that is to be changed is its own index.** -/
theorem crash_iff_indexesItself :
    (∃ failure, machine.step.1 = .failed failure ∧ failure.fault = .crash) ↔
      machine.IndexesItself := by
  constructor
  · rintro ⟨failure, hfailed, hcrash⟩
    obtain ⟨instruction, hunit, hanswered | ⟨-, hself⟩⟩ := fault_of_step hfailed
    · exact absurd hcrash hanswered.ne_crash
    · exact ⟨instruction, hunit, hself⟩
  · intro hself
    have hrunning : machine.isFinished = false := by
      obtain ⟨instruction, hunit, -⟩ := hself
      rw [← Bool.not_eq_true, isFinished_iff, hunit]
      simp
    rcases step_cases machine with ⟨-, hstep⟩ | ⟨-, -, hstep⟩ | ⟨_, _, hcarries, -⟩ |
      ⟨fault, store, hcarries, hstep⟩
    · exact absurd (congrArg Prod.fst hstep) (step_ne_done hrunning)
    · exact absurd (congrArg Prod.fst hstep) (step_ne_done hrunning)
    · obtain ⟨_, hcrash⟩ := hcarries.eq_crash_of_indexesItself hself
      contradiction
    · obtain ⟨_, hcrash⟩ := hcarries.eq_crash_of_indexesItself hself
      cases hcrash
      exact ⟨_, congrArg Prod.fst hstep, rfl⟩

/-- A run brings the host down exactly if it comes to such a unit. -/
theorem run?_crash_iff {fuel : Nat} {result : Except Failure Unit} {after : Machine}
    (h : machine.run? fuel = some (result, after)) :
    (∃ failure, result = .error failure ∧ failure.fault = .crash) ↔
      ∃ k < fuel, (machine.stepped k).IndexesItself := by
  simp only [error_of_run?_iff h, ← crash_iff_indexesItself]
  constructor
  · rintro ⟨failure, ⟨k, hk, hfailed⟩, hcrash⟩
    exact ⟨k, hk, failure, hfailed, hcrash⟩
  · rintro ⟨k, hk, failure, hfailed, hcrash⟩
    exact ⟨failure, ⟨k, hk, hfailed⟩, hcrash⟩

/-! ## 4. Texts without a loop -/

/-- Without a loop every step of a machine that is not finished leads forward, so the position keeps
up with the number of steps. -/
theorem le_position_stepped (hstart : Built code start)
    (hloops : (LoopTable.ofText code.toList).isEmpty = true) (k : Nat) :
    (start.stepped k).isFinished = true ∨ k ≤ (start.stepped k).position := by
  induction k with
  | zero => exact .inr (Nat.zero_le _)
  | succ k ih =>
    rw [← step_stepped]
    have hreach := reachable_stepped start k
    generalize start.stepped k = machine at hreach ih
    cases hfinished : machine.isFinished with
    | true =>
      rw [step_of_isFinished hfinished]
      exact .inl (isFinished_of_halted rfl)
    | false =>
      have htext := hstart.text_eq hreach
      have hboundary : Boundary machine.program.text machine.position :=
        htext ▸ boundary_of_reachable hstart hreach
      have hle : k ≤ machine.position := by simpa [hfinished] using ih
      rcases step_progress hboundary with hhalted | ⟨hlt, -⟩ | ⟨p, hrepeats, -⟩
      · exact .inl (isFinished_of_halted hhalted)
      · exact .inr (Nat.lt_of_le_of_lt hle hlt)
      · exact absurd (htext ▸ hrepeats.loop) (not_isLoop_of_isEmpty hloops)

/-- **Only loops run forever.** A step leaves a halted machine, or leads forward in the text, at most to
its end, or takes up the body of the loop that ends there, because the condition is true. So if the
table of a text has no loop, every run of it carries out at most as many units as the text has
characters, and there is one result, which every run has that is given as many units.

The result is the end of the text or a failure that is answered, unless the run comes to a unit that
is to change an array that is its own index: the host goes down there, and at no other unit. -/
theorem progress_of_built (hstart : Built code start) :
    (∀ machine, Reachable start machine →
      machine.step.2.halted = true ∨
        (machine.position < machine.step.2.position ∧
          machine.step.2.position ≤ code.toList.length) ∨
        ∃ p, machine.Repeats p ∧ machine.step.2.position = p + 1) ∧
    (∀ machine : Machine, (∃ failure, machine.step.1 = .failed failure ∧ failure.fault = .crash) ↔
      machine.IndexesItself) ∧
    ((LoopTable.ofText code.toList).isEmpty = true →
      start.units ≤ code.toList.length ∧
        ∃ result after, (∀ fuel, code.toList.length ≤ fuel →
          start.run? fuel = some (result, after)) ∧
          ((∃ failure, result = .error failure ∧ failure.fault = .crash) ↔
            ∃ k < code.toList.length, (start.stepped k).IndexesItself)) := by
  refine ⟨fun machine hreach => ?_, fun machine => crash_iff_indexesItself, fun hloops => ?_⟩
  · have hboundary := boundary_of_reachable hstart hreach
    rw [← hstart.text_eq hreach] at hboundary ⊢
    exact step_progress hboundary
  · have hfinished : (start.stepped code.toList.length).isFinished = true := by
      rcases le_position_stepped hstart hloops code.toList.length with hfinished | hle
      · exact hfinished
      · have hlength : (start.stepped code.toList.length).program.length = code.toList.length :=
          congrArg List.length (hstart.text_eq (reachable_stepped start _))
        simp [isFinished, hlength, hle]
    obtain ⟨result, hrun, -⟩ := runs_of_finished hfinished
    exact ⟨units_le_iff.mpr hfinished, result, _, hrun, run?_crash_iff (hrun _ (Nat.le_refl _))⟩

/-- At the end of the loop in the first text the condition is true, and the step leads back to its
body; the loop head of the second text has no end, so a run of it has at most three units. -/
theorem progress_of_repeated_body :
    let loop := onHeap .empty "a\x7bb\x7d"
    let text := onHeap .empty "a\x7bb"
    (∃ p, (loop.stepped 3).Repeats p ∧ (loop.stepped 4).position = p + 1) ∧
      text.units ≤ (3 : Nat) ∧
        ∃ result after, ∀ fuel, 3 ≤ fuel → text.run? fuel = some (result, after) := by
  intro loop text
  have hloop : Built "a\x7bb\x7d" loop := .onHeap .empty
  have htext : Built "a\x7bb" text := .onHeap .empty
  obtain ⟨hunits, result, after, hrun, -⟩ := (progress_of_built htext).2.2 (by decide +kernel)
  refine ⟨?_, hunits, result, after, hrun⟩
  have hrunning : (loop.stepped 3).step.2.halted = false := by decide +kernel
  have hposition : (loop.stepped 3).position = 3 ∧ (loop.stepped 4).position = 2 := by decide +kernel
  obtain ⟨hsteps, -⟩ := progress_of_built hloop
  rcases hsteps _ (reachable_stepped loop 3) with hhalted | ⟨hlt, -⟩ | hrepeats
  · rw [hrunning] at hhalted
    contradiction
  · rw [step_stepped, hposition.1, hposition.2] at hlt
    contradiction
  · rw [step_stepped] at hrepeats
    exact hrepeats

/-- This text has no loop, and no run of it comes to its end or to a failure that is answered: at `$`
the array is its own index. -/
theorem crash_without_loop :
    let start := onHeap .empty "[1]:$"
    (LoopTable.ofText "[1]:$".toList).isEmpty = true ∧ (start.stepped 4).IndexesItself ∧
      ¬ ∃ fuel result after, start.run? fuel = some (result, after) ∧
        ∀ failure, result = .error failure → failure.fault ≠ .crash := by
  intro start
  have hself : (start.stepped 4).IndexesItself :=
    ⟨.itemDelete, by decide +kernel, @Store.IndexesItself.delete _ #[] ⟨1⟩ rfl⟩
  refine ⟨by decide +kernel, hself, ?_⟩
  rintro ⟨fuel, result, after, hrun, hanswered⟩
  have hmore : ((4 : Nat) : ℕ∞) < start.units := lt_units_iff.mpr (by decide +kernel)
  have hle : start.units ≤ fuel := (isSome_run?_iff start fuel).mp (by rw [hrun]; rfl)
  have hfuel : 4 < fuel := by exact_mod_cast hmore.trans_le hle
  obtain ⟨failure, hfailed, hcrash⟩ := (run?_crash_iff hrun).mpr ⟨4, hfuel, hself⟩
  exact hanswered failure hfailed hcrash

end Machine

end GlyphStack
