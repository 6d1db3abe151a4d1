import GlyphStack.Proofs.Machine.Position
import GlyphStack.Proofs.Structured.Semantics

/-!
The machine carries out the tree of its text. It knows no loops: it passes over a body by a walk
over the units, repeats one by a look into a table, and leaves several at once by a count. Main
statement: on a text that is one block, a run from position 0 comes to its end with a store exactly
when the behaviour of the block does, and it fails exactly when the behaviour does, with the same
kind of fault and the same store (section 6).

`Runs` counts the units of a run. `Continues` says what is left of a run when a block has ended at
position `q` with some outcome: the run from `q`, or from behind the loops that are left, or the
failure. Both directions are inductions over the block. From the behaviour to the run a loop is a
second induction over its turns (`Reads.runs`); back from the run it is one over the units that the
run has left (`Reads.behaviour_of_runs`), and there it is used that no turn is empty.
-/

namespace GlyphStack

open Program Store Behaviour

/-! ## 1. Runs, counted in units -/

/-- From position `p` so many units are carried out, and then the text is at its end or, if there is
a kind of fault, a unit fails with one of that kind. -/
inductive Runs (program : Program) (limits : Limits) :
    (units p : Nat) → Store → (kind? : Option FaultKind) → Store → Prop where
  | finish {p : Nat} {store : Store} (hend : program.rest p = []) :
      Runs program limits 0 p store none store
  | fail {p : Nat} {first : Char} {tail : List Char} {store after : Store} {cause : Fault}
      (hrest : program.rest p = first :: tail)
      (hdispatch : dispatch program limits p first tail store = .error cause after) :
      Runs program limits 0 p store (some cause.kind) after
  | move {units p next : Nat} {first : Char} {tail : List Char} {store between after : Store}
      {kind? : Option FaultKind} (hrest : program.rest p = first :: tail)
      (hdispatch : dispatch program limits p first tail store = .ok next between)
      (hnext : Runs program limits units next between kind? after) :
      Runs program limits (units + 1) p store kind? after

/-- The kind of fault with which a run failed. -/
def faultKind? : Except Failure Unit → Option FaultKind
  | .ok _ => none
  | .error failure => some failure.fault.kind

variable {program : Program} {limits : Limits} {p q e n : Nat} {store after : Store}
  {kind? : Option FaultKind}

/-- What a run does where a unit stands. -/
theorem runs_iff {first : Char} {tail : List Char} (hrest : program.rest p = first :: tail) :
    Runs program limits n p store kind? after ↔
      match dispatch program limits p first tail store with
      | .ok next between => ∃ units, n = units + 1 ∧
          Runs program limits units next between kind? after
      | .error cause between => n = 0 ∧ kind? = some cause.kind ∧ after = between := by
  constructor
  · intro h
    cases h with
    | finish hend => simp [hrest] at hend
    | fail hrest' hdispatch =>
      obtain ⟨rfl, rfl⟩ := List.cons.inj (hrest.symm.trans hrest')
      rw [hdispatch]
      exact ⟨rfl, rfl, rfl⟩
    | move hrest' hdispatch hnext =>
      obtain ⟨rfl, rfl⟩ := List.cons.inj (hrest.symm.trans hrest')
      rw [hdispatch]
      exact ⟨_, rfl, hnext⟩
  · intro h
    cases hdispatch : dispatch program limits p first tail store with
    | ok next between =>
      rw [hdispatch] at h
      obtain ⟨units, rfl, hnext⟩ := h
      exact .move hrest hdispatch hnext
    | error cause between =>
      rw [hdispatch] at h
      obtain ⟨rfl, rfl, rfl⟩ := h
      exact .fail hrest hdispatch

/-- A counted run is a run of the machine. -/
theorem Runs.run? (h : Runs program limits n p store kind? after) : ∃ result machine,
    Machine.run? (n + 1) { program, limits, store, position := p } = some (result, machine) ∧
      machine.store = after ∧ faultKind? result = kind? := by
  have key : ∃ ending machine,
      Machine.runUpTo (n + 1) { program, limits, store, position := p } = (ending, machine) ∧
        machine.store = after ∧
        (ending = .finished ∧ kind? = none ∨
          ∃ failure, ending = .failed failure ∧ kind? = some failure.fault.kind) := by
    induction h with
    | @finish p store hend =>
      refine ⟨.finished, { program, limits, store, position := p, halted := true }, ?_, rfl,
        .inl ⟨rfl, rfl⟩⟩
      simp [Machine.runUpTo, Machine.step, hend]
    | @fail p first tail store after cause hrest hdispatch =>
      refine ⟨.failed (Machine.failureAt program p cause),
        { program, limits, store := after, position := p, halted := true }, ?_, rfl,
        .inr ⟨_, rfl, rfl⟩⟩
      simp [Machine.runUpTo, Machine.step, hrest, hdispatch]
    | @move units p next first tail store between after kind? hrest hdispatch _ ih =>
      obtain ⟨ending, machine, hrun, hstore, hending⟩ := ih
      refine ⟨ending, machine, ?_, hstore, hending⟩
      rw [Machine.runUpTo]
      simp only [Machine.step, hrest, hdispatch, Bool.false_eq_true, if_false]
      exact hrun
  obtain ⟨ending, machine, hrun, hstore, ⟨rfl, rfl⟩ | ⟨failure, rfl, rfl⟩⟩ := key
  · exact ⟨.ok (), machine, by rw [Machine.run?, hrun], hstore, rfl⟩
  · exact ⟨.error failure, machine, by rw [Machine.run?, hrun], hstore, rfl⟩

/-- A run of the machine that comes to an end can be counted. -/
theorem runs_of_run? {fuel : Nat} {result : Except Failure Unit} {machine : Machine}
    (h : Machine.run? fuel { program, limits, store, position := p } = some (result, machine)) :
    ∃ n, Runs program limits n p store (faultKind? result) machine.store := by
  induction fuel generalizing p store with
  | zero =>
    rw [Machine.run?, Machine.runUpTo] at h
    by_cases hfinished : Machine.isFinished { program, limits, store, position := p } = true
    · simp only [hfinished, if_true, Option.some.injEq, Prod.mk.injEq] at h
      obtain ⟨rfl, rfl⟩ := h
      have hend : program.rest p = [] := by
        simp only [Machine.isFinished, Bool.false_or] at hfinished
        exact List.drop_eq_nil_iff.mpr (of_decide_eq_true hfinished)
      exact ⟨0, .finish hend⟩
    · simp [hfinished] at h
  | succ fuel ih =>
    cases hrest : program.rest p with
    | nil =>
      simp [Machine.run?, Machine.runUpTo, Machine.step, hrest] at h
      obtain ⟨rfl, rfl⟩ := h
      exact ⟨0, .finish hrest⟩
    | cons first tail =>
      cases hdispatch : dispatch program limits p first tail store with
      | ok next between =>
        have hnext : Machine.run? fuel { program, limits, store := between, position := next } =
            some (result, machine) := by
          rw [← h, Machine.run?, Machine.run?, Machine.runUpTo.eq_def (fuel + 1)]
          simp only [Machine.step, hrest, hdispatch, Bool.false_eq_true, if_false]
        obtain ⟨n, hruns⟩ := ih hnext
        exact ⟨n + 1, .move hrest hdispatch hruns⟩
      | error cause between =>
        simp [Machine.run?, Machine.runUpTo, Machine.step, hrest, hdispatch] at h
        obtain ⟨rfl, rfl⟩ := h
        exact ⟨0, .fail hrest hdispatch⟩

/-! ## 2. Parts of a block at their positions -/

theorem rest_of_getElem? {c : Char} (h : program.text[p]? = some c) :
    program.rest p = c :: program.rest (p + 1) :=
  drop_of_getElem? h

/-- In a text that can be read to its end, the way out of loops fails only for want of loops. -/
theorem exitFrom_of_boundary {text : List Char} {depth : Nat}
    (hread : (lexFrom 0 text).stopped = none) (hp : Boundary text p) (hd : 1 ≤ depth) :
    exitFrom text p depth =
      match loopExit depth (unitsFrom text p) with
      | some target => .ok target
      | none => .error (.misread (p - 1) .noLoopEnd) := by
  obtain ⟨before, hbefore⟩ := hp
  have hstopped : (lexFrom p (text.drop p)).stopped = none := by
    rw [← hread, ← List.drop_zero (l := text), lexFrom_of_sweep hbefore]
    rfl
  rw [exitFrom, if_neg (by omega), unitsFrom]
  dsimp only
  rw [hstopped]
  cases loopExit depth (lexFrom p (text.drop p)).lexemes <;> rfl

/-- The units of a block that are no braces and no exits are followed by the rest of the block. -/
theorem dispatch_unit {lexeme : Lexeme} {next : Nat} (hunit : UnitAt program.text p lexeme)
    (hplain : ¬ IsControl lexeme.first)
    (h : dispatch program limits lexeme.start lexeme.first (program.rest (lexeme.start + 1)) store =
      .ok next after) : next = lexeme.stop := by
  obtain ⟨rest, hrest, htail⟩ := hunit.read
  have hrest' : program.rest (lexeme.start + 1) = rest := by
    rw [hunit.start, Program.rest, ← List.drop_drop, hrest, List.drop_one, List.tail_cons]
  rw [hrest'] at h
  obtain ⟨act, -, hact⟩ := dispatch_plain hplain htail
  rw [hact] at h
  obtain ⟨-, between, -, h⟩ := Action.bind_eq_ok_iff.mp h
  cases h
  rfl

/-- At its head a loop takes a condition off and goes into its body, or behind its end. -/
theorem dispatch_head_of_isLoop (hloop : IsLoop program.text p e) (limits : Limits)
    (tail : List Char) (store : Store) : dispatch program limits p '{' tail store =
      match popOne "\x7b" store with
      | .ok condition between => .ok (if condition.isTrue then p + 1 else e + 1) between
      | .error cause between => .error cause between := by
  rw [dispatch_loopHead]
  cases hpop : popOne "\x7b" store with
  | error cause between => rw [Action.bind_of_error hpop]
  | ok condition between =>
    rw [Action.bind_of_ok hpop, hloop.exit]
    by_cases htrue : condition.isTrue = true <;> simp only [htrue, if_true] <;> rfl

/-- At its end a loop takes a condition off and goes back into its body, or on. -/
theorem dispatch_tail_of_isLoop (hloop : IsLoop program.text p e) (limits : Limits)
    (tail : List Char) (store : Store) : dispatch program limits e '}' tail store =
      match popOne "\x7d" store with
      | .ok condition between => .ok (if condition.isTrue then p + 1 else e + 1) between
      | .error cause between => .error cause between := by
  rw [dispatch_loopTail, program.loops_eq, hloop.bodyStart]
  cases hpop : popOne "\x7d" store with
  | error cause between => rw [Action.bind_of_error hpop]
  | ok condition between =>
    rw [Action.bind_of_ok hpop]
    by_cases htrue : condition.isTrue = true <;> simp only [htrue, if_true] <;> rfl

/-- A run of exits in front of a block has the text read on behind the loops around the block. -/
theorem dispatch_exits {block : Block} (hread : (lexFrom 0 program.text).stopped = none)
    (hp : Boundary program.text p) (hrun : 0 < leaveRun (program.text.drop p))
    (hrest : Reads program.text (p + leaveRun (program.text.drop p)) block q) (limits : Limits)
    (store : Store) :
    dispatch program limits p '!' (program.rest (p + 1)) store =
      match loopExit (leaveRun (program.text.drop p)) (unitsFrom program.text q) with
      | some target => .ok target store
      | none =>
          .error (.misread (p + leaveRun (program.text.drop p) - 1) .noLoopEnd) store := by
  have hfirst : '!' :: program.rest (p + 1) = program.text.drop p :=
    (rest_of_getElem? (getElem?_of_leaveRun_pos hrun)).symm
  rw [dispatch_leave, hfirst, exitFrom_of_boundary hread hp.add_leaveRun hrun,
    hrest.loopExit_eq hrun]
  cases loopExit (leaveRun (program.text.drop p)) (unitsFrom program.text q) <;> rfl

/-! ## 3. What is left of a run behind a block -/

/-- A run whose block has ended at position `q` with an outcome carries on like this. -/
def Continues (program : Program) (limits : Limits) (q : Nat) (outcome : Outcome) (units : Nat)
    (store : Store) (kind? : Option FaultKind) (after : Store) : Prop :=
  match outcome with
  | .normal => Runs program limits units q store kind? after
  | .leave count =>
      match loopExit count (unitsFrom program.text q) with
      | some target => Runs program limits units target store kind? after
      | none => kind? = some .misread ∧ after = store
  | .fault cause => kind? = some cause.kind ∧ after = store

/-- Leaving a loop from the end of its body is leaving one loop less from behind its end. -/
theorem continues_outOfLoop {outcome : Outcome} (htail : program.text[e]? = some '}')
    (hother : outcome ≠ .normal) :
    Continues program limits (e + 1) outcome.outOfLoop n store kind? after ↔
      Continues program limits e outcome n store kind? after := by
  have hunits := unitsFrom_of_unitAt (UnitAt.of_getElem? htail (.inr (.inl rfl)))
  cases outcome with
  | normal => contradiction
  | fault => rfl
  | leave count =>
    simp only [Continues, Outcome.outOfLoop, hunits]
    by_cases hcount : count ≤ 1
    · rw [if_pos hcount]
      simp [loopExit, hcount, Lexeme.stop]
    · rw [if_neg hcount]
      simp [loopExit, hcount, Lexeme.stop]

/-- The loops around a block are left from its start as from its end. -/
theorem continues_of_reads {block : Block} {outcome : Outcome}
    (h : Reads program.text p block q) (hother : outcome ≠ .normal)
    (hcount : ∀ count, outcome = .leave count → 1 ≤ count) :
    Continues program limits p outcome n store kind? after ↔
      Continues program limits q outcome n store kind? after := by
  cases outcome with
  | normal => contradiction
  | fault => rfl
  | leave count => simp only [Continues, h.loopExit_eq (hcount count rfl)]

/-! ## 4. From the behaviour to the run -/

/-- The turns of a loop are run from the start of its body, if the body itself can be. -/
theorem runs_of_repeats {body : Behaviour} (hloop : IsLoop program.text p e)
    (htail : program.text[e]? = some '}')
    (hbody : ∀ {store between after : Store} {outcome : Outcome} {n : Nat},
      body store outcome between → Continues program limits e outcome n between kind? after →
        ∃ m, Runs program limits m (p + 1) store kind? after)
    {store between : Store} {outcome : Outcome} (hturns : Repeats body store outcome between)
    (hnext : Continues program limits (e + 1) outcome n between kind? after) :
    ∃ m, Runs program limits m (p + 1) store kind? after := by
  have hrest := rest_of_getElem? htail
  induction hturns with
  | other hturn hother => exact hbody hturn ((continues_outOfLoop htail hother).mp hnext)
  | fault hturn hpop =>
    obtain ⟨rfl, rfl⟩ := hnext
    refine hbody (n := 0) hturn (.fail hrest ?_)
    rw [dispatch_tail_of_isLoop hloop, hpop]
  | finish hturn hpop hfalse =>
    refine hbody (n := n + 1) hturn (.move hrest ?_ hnext)
    rw [dispatch_tail_of_isLoop hloop, hpop]
    simp only [hfalse, Bool.false_eq_true, if_false]
  | again hturn hpop htrue _ ih =>
    obtain ⟨m, hruns⟩ := ih hnext
    refine hbody (n := m + 1) hturn (.move hrest ?_ hruns)
    rw [dispatch_tail_of_isLoop hloop, hpop]
    simp only [htrue, if_true]

/-- A loop with what follows it is run from its head, if its body and what follows can be. -/
theorem runs_of_loop {body rest : Behaviour} {block : Block} (hloop : IsLoop program.text p e)
    (htail : program.text[e]? = some '}') (hblock : Reads program.text (e + 1) block q)
    (hbody : ∀ {store between after : Store} {outcome : Outcome} {n : Nat},
      body store outcome between → Continues program limits e outcome n between kind? after →
        ∃ m, Runs program limits m (p + 1) store kind? after)
    (hrest : ∀ {store between after : Store} {outcome : Outcome} {n : Nat},
      rest store outcome between → Continues program limits q outcome n between kind? after →
        ∃ m, Runs program limits m (e + 1) store kind? after)
    {store between : Store} {outcome : Outcome} (h : Behaviour.loop body rest store outcome between)
    (hnext : Continues program limits q outcome n between kind? after) :
    ∃ m, Runs program limits m p store kind? after := by
  have hfirst := rest_of_getElem? hloop.head
  have hdispatch := dispatch_head_of_isLoop hloop limits (program.rest (p + 1)) store
  simp only [Behaviour.loop, afterAction] at h
  cases hpop : popOne "\x7b" store with
  | error cause mid =>
    rw [hpop] at h hdispatch
    obtain ⟨rfl, rfl⟩ := h
    obtain ⟨rfl, rfl⟩ := hnext
    exact ⟨0, .fail hfirst hdispatch⟩
  | ok condition mid =>
    rw [hpop] at h hdispatch
    cases htrue : condition.isTrue with
    | false =>
      simp only [htrue, Bool.false_eq_true, if_false] at h hdispatch
      obtain ⟨m, hruns⟩ := hrest h hnext
      exact ⟨m + 1, .move hfirst hdispatch hruns⟩
    | true =>
      simp only [htrue, if_true] at h hdispatch
      have hturns {m : Nat} {outcome : Outcome} {between : Store}
          (hturns : Repeats body mid outcome between)
          (hnext : Continues program limits (e + 1) outcome m between kind? after) :
          ∃ m, Runs program limits m p store kind? after := by
        obtain ⟨m, hruns⟩ := runs_of_repeats hloop htail hbody hturns hnext
        exact ⟨m + 1, .move hfirst hdispatch hruns⟩
      cases h with
      | normal hpart h =>
        obtain ⟨m, hruns⟩ := hrest h hnext
        exact hturns (m := m) hpart hruns
      | other hpart hother =>
        -- a loop further out is left, or a unit failed: what follows the loop plays no part
        exact hturns hpart ((continues_of_reads hblock hother fun _ => hpart.count_pos).mpr hnext)

/-- What a block may do is run from its start, if what is left can be run behind it. -/
theorem Program.Reads.runs (hread : (lexFrom 0 program.text).stopped = none) {block : Block}
    (h : Reads program.text p block q) (hp : Boundary program.text p) {store between : Store}
    {outcome : Outcome} (hblock : block.behaviour program limits store outcome between)
    (hnext : Continues program limits q outcome n between kind? after) :
    ∃ m, Runs program limits m p store kind? after := by
  induction h generalizing store between outcome n after kind? with
  | done p =>
    obtain ⟨rfl, rfl⟩ := hblock
    exact ⟨n, hnext⟩
  | @unit p q lexeme rest hunit hplain _ ih =>
    have hrest := rest_of_getElem? hunit.getElem?
    simp only [Block.behaviour, afterAction, hunit.start] at hblock
    cases hdispatch : dispatch program limits p lexeme.first (program.rest (p + 1)) store with
    | ok next mid =>
      rw [hdispatch] at hblock
      have hstop : next = lexeme.stop := dispatch_unit hunit hplain (by rw [hunit.start, hdispatch])
      obtain ⟨m, hruns⟩ := ih (hp.stop hunit) hblock hnext
      exact ⟨m + 1, .move hrest hdispatch (hstop ▸ hruns)⟩
    | error cause mid =>
      rw [hdispatch] at hblock
      obtain ⟨rfl, rfl⟩ := hblock
      obtain ⟨rfl, rfl⟩ := hnext
      exact ⟨0, .fail hrest hdispatch⟩
  | @leave p q rest hrun hrest _ =>
    obtain ⟨rfl, rfl⟩ := hblock
    have hfirst := rest_of_getElem? (getElem?_of_leaveRun_pos hrun)
    have hdispatch := dispatch_exits hread hp hrun hrest limits between
    simp only [Continues] at hnext
    cases hexit : loopExit (leaveRun (program.text.drop p)) (unitsFrom program.text q) with
    | some target =>
      rw [hexit] at hnext hdispatch
      exact ⟨n + 1, .move hfirst hdispatch hnext⟩
    | none =>
      rw [hexit] at hnext hdispatch
      obtain ⟨rfl, rfl⟩ := hnext
      exact ⟨0, .fail hfirst hdispatch⟩
  | @loop p e q body rest hhead hbody htail hrest ihbody ihrest =>
    have hp' : Boundary program.text (p + 1) := hp.stop (UnitAt.of_getElem? hhead (.inl rfl))
    have he : Boundary program.text (e + 1) :=
      (hbody.boundary hp').stop (UnitAt.of_getElem? htail (.inr (.inl rfl)))
    exact runs_of_loop (hbody.isLoop hp hhead htail) htail hrest (fun h hnext => ihbody hp' h hnext)
      (fun h hnext => ihrest he h hnext) hblock hnext

/-! ## 5. From the run to the behaviour -/

/-- A run from the start of a loop's body takes turns of the loop and carries on behind them. Every
turn ends with the unit of the loop end, so the next one has fewer units left. -/
theorem repeats_of_runs {body : Behaviour} (hloop : IsLoop program.text p e)
    (htail : program.text[e]? = some '}')
    (hbody : ∀ {store : Store} {n : Nat}, Runs program limits n (p + 1) store kind? after →
      ∃ outcome between m, m ≤ n ∧ body store outcome between ∧
        Continues program limits e outcome m between kind? after)
    (h : Runs program limits n (p + 1) store kind? after) : ∃ outcome between m, m ≤ n ∧
      Repeats body store outcome between ∧
        Continues program limits (e + 1) outcome m between kind? after := by
  induction n using Nat.strongRecOn generalizing store with
  | ind n ih =>
    obtain ⟨outcome, between, m, hm, hturn, hnext⟩ := hbody h
    by_cases hnormal : outcome = .normal
    · subst hnormal
      have hstep := (runs_iff (rest_of_getElem? htail)).mp hnext
      rw [dispatch_tail_of_isLoop hloop] at hstep
      cases hpop : popOne "\x7d" between with
      | error cause mid =>
        rw [hpop] at hstep
        obtain ⟨-, rfl, rfl⟩ := hstep
        exact ⟨.fault cause, after, 0, Nat.zero_le n, .fault hturn hpop, rfl, rfl⟩
      | ok condition mid =>
        rw [hpop] at hstep
        obtain ⟨units, rfl, hruns⟩ := hstep
        cases htrue : condition.isTrue with
        | false =>
          simp only [htrue, Bool.false_eq_true, if_false] at hruns
          exact ⟨.normal, mid, units, by omega, .finish hturn hpop htrue, hruns⟩
        | true =>
          simp only [htrue, if_true] at hruns
          -- the unit of the loop end was taken off, so the next turn has fewer units
          obtain ⟨outcome, last, m, hle, hturns, hnext⟩ := ih units (by omega) hruns
          exact ⟨outcome, last, m, by omega, .again hturn hpop htrue hturns, hnext⟩
    · exact ⟨outcome.outOfLoop, between, m, hm, .other hturn hnormal,
        (continues_outOfLoop htail hnormal).mpr hnext⟩

/-- A run from the head of a loop passes over it or takes turns of it, and carries on behind it. -/
theorem loop_of_runs {body rest : Behaviour} {block : Block} (hloop : IsLoop program.text p e)
    (htail : program.text[e]? = some '}') (hblock : Reads program.text (e + 1) block q)
    (hbody : ∀ {store : Store} {n : Nat}, Runs program limits n (p + 1) store kind? after →
      ∃ outcome between m, m ≤ n ∧ body store outcome between ∧
        Continues program limits e outcome m between kind? after)
    (hrest : ∀ {store : Store} {n : Nat}, Runs program limits n (e + 1) store kind? after →
      ∃ outcome between m, m ≤ n ∧ rest store outcome between ∧
        Continues program limits q outcome m between kind? after)
    (h : Runs program limits n p store kind? after) : ∃ outcome between m, m ≤ n ∧
      Behaviour.loop body rest store outcome between ∧
        Continues program limits q outcome m between kind? after := by
  have hstep := (runs_iff (rest_of_getElem? hloop.head)).mp h
  rw [dispatch_head_of_isLoop hloop] at hstep
  simp only [Behaviour.loop, afterAction]
  cases hpop : popOne "\x7b" store with
  | error cause mid =>
    rw [hpop] at hstep
    obtain ⟨-, rfl, rfl⟩ := hstep
    exact ⟨.fault cause, after, 0, Nat.zero_le n, ⟨rfl, rfl⟩, rfl, rfl⟩
  | ok condition mid =>
    rw [hpop] at hstep
    obtain ⟨units, rfl, hlater⟩ := hstep
    cases htrue : condition.isTrue with
    | false =>
      simp only [htrue, Bool.false_eq_true, if_false] at hlater ⊢
      obtain ⟨outcome, between, m, hle, hafter, hnext⟩ := hrest hlater
      exact ⟨outcome, between, m, by omega, hafter, hnext⟩
    | true =>
      simp only [htrue, if_true] at hlater ⊢
      obtain ⟨outcome, between, m, hle, hturns, hnext⟩ := repeats_of_runs hloop htail hbody hlater
      by_cases hnormal : outcome = .normal
      · subst hnormal
        obtain ⟨outcome, last, m', hle', hafter, hnext⟩ := hrest hnext
        exact ⟨outcome, last, m', by omega, .normal hturns hafter, hnext⟩
      · exact ⟨outcome, between, m, by omega, .other hturns hnormal,
          (continues_of_reads hblock hnormal fun _ => hturns.count_pos).mp hnext⟩

/-- What is run from the start of a block is something that the block may do, and then what is left
behind it. -/
theorem Program.Reads.behaviour_of_runs (hread : (lexFrom 0 program.text).stopped = none)
    {block : Block} (h : Reads program.text p block q) (hp : Boundary program.text p)
    (hruns : Runs program limits n p store kind? after) : ∃ outcome between m, m ≤ n ∧
      block.behaviour program limits store outcome between ∧
        Continues program limits q outcome m between kind? after := by
  induction h generalizing store n with
  | done p => exact ⟨.normal, store, n, Nat.le_refl n, ⟨rfl, rfl⟩, hruns⟩
  | @unit p q lexeme rest hunit hplain _ ih =>
    have hstep := (runs_iff (rest_of_getElem? hunit.getElem?)).mp hruns
    simp only [Block.behaviour, afterAction, hunit.start]
    cases hdispatch : dispatch program limits p lexeme.first (program.rest (p + 1)) store with
    | ok next mid =>
      rw [hdispatch] at hstep
      obtain ⟨units, rfl, hlater⟩ := hstep
      obtain rfl : next = lexeme.stop := dispatch_unit hunit hplain (by rw [hunit.start, hdispatch])
      obtain ⟨outcome, between, m, hle, hblock, hnext⟩ := ih (hp.stop hunit) hlater
      exact ⟨outcome, between, m, by omega, hblock, hnext⟩
    | error cause mid =>
      rw [hdispatch] at hstep
      obtain ⟨-, rfl, rfl⟩ := hstep
      exact ⟨.fault cause, after, 0, Nat.zero_le n, ⟨rfl, rfl⟩, rfl, rfl⟩
  | @leave p q rest hrun hrest _ =>
    have hstep := (runs_iff (rest_of_getElem? (getElem?_of_leaveRun_pos hrun))).mp hruns
    rw [dispatch_exits hread hp hrun hrest] at hstep
    refine ⟨.leave (leaveRun (program.text.drop p)), store, n - 1, by omega, ⟨rfl, rfl⟩, ?_⟩
    simp only [Continues]
    cases hexit : loopExit (leaveRun (program.text.drop p)) (unitsFrom program.text q) with
    | some target =>
      rw [hexit] at hstep
      obtain ⟨units, rfl, hlater⟩ := hstep
      exact hlater
    | none =>
      rw [hexit] at hstep
      exact hstep.2
  | @loop p e q body rest hhead hbody htail hrest ihbody ihrest =>
    have hp' : Boundary program.text (p + 1) := hp.stop (UnitAt.of_getElem? hhead (.inl rfl))
    have he : Boundary program.text (e + 1) :=
      (hbody.boundary hp').stop (UnitAt.of_getElem? htail (.inr (.inl rfl)))
    exact loop_of_runs (hbody.isLoop hp hhead htail) htail hrest (fun h => ihbody hp' h)
      (fun h => ihrest he h) hruns

/-! ## 6. The whole text -/

/-- At the end of the text nothing is left of a run, and there is no loop to leave. -/
theorem continues_length {outcome : Outcome} {between : Store} (h : Continues program limits
    program.text.length outcome n between kind? after) :
    kind? = outcome.faultKind? ∧ after = between := by
  cases outcome with
  | normal =>
    have hend : program.rest program.text.length = [] := List.drop_length
    cases h with
    | finish => exact ⟨rfl, rfl⟩
    | fail hrest => simp [hend] at hrest
    | move hrest => simp [hend] at hrest
  | leave count =>
    have hunits : unitsFrom program.text program.text.length = [] := by simp [unitsFrom]
    simp only [Continues, hunits, loopExit] at h
    exact h
  | fault cause => exact h

/-- A run of a text that is one block ends as the behaviour of the block does. -/
theorem runs_iff_behaviour (hread : (lexFrom 0 program.text).stopped = none) {block : Block}
    (hblock : Reads program.text 0 block program.text.length) :
    (∃ n, Runs program limits n 0 store kind? after) ↔
      ∃ outcome, outcome.faultKind? = kind? ∧
        block.behaviour program limits store outcome after := by
  constructor
  · rintro ⟨n, hruns⟩
    obtain ⟨outcome, between, m, -, hbehaviour, hnext⟩ :=
      hblock.behaviour_of_runs hread (.zero _) hruns
    obtain ⟨rfl, rfl⟩ := continues_length hnext
    exact ⟨outcome, rfl, hbehaviour⟩
  · rintro ⟨outcome, rfl, hbehaviour⟩
    refine hblock.runs (n := 0) hread (.zero _) hbehaviour ?_
    cases outcome with
    | normal => exact .finish List.drop_length
    | leave count => simp [Continues, unitsFrom, loopExit, Outcome.faultKind?]
    | fault cause => exact ⟨rfl, rfl⟩

/-- **The machine carries out the tree of its text.** A text that can be read to its end and whose
braces all belong to loops is exactly one block. Under all limits and from every store, the machine
comes to the end of the text with some store if and only if the block ends normally with that store,
and it fails with a kind of fault and some store if and only if the block does. -/
theorem run_iff_behaviour {program : Program} (hread : (lexFrom 0 program.text).stopped = none)
    (hmatched : AllMatched program.text) : ∃ block,
      (∀ other, Reads program.text 0 other program.text.length ↔ other = block) ∧
      ∀ (limits : Limits) (store after : Store),
        ((∃ fuel machine, Machine.run? fuel { program, limits, store } = some (.ok (), machine) ∧
            machine.store = after) ↔ block.behaviour program limits store .normal after) ∧
        ∀ kind, ((∃ fuel failure machine,
            Machine.run? fuel { program, limits, store } = some (.error failure, machine) ∧
              failure.fault.kind = kind ∧ machine.store = after) ↔
          ∃ outcome, outcome.faultKind? = some kind ∧
            block.behaviour program limits store outcome after) := by
  obtain ⟨block, hunique⟩ := reads_iff_of_matched hread hmatched
  have hblock := (hunique block).mpr rfl
  refine ⟨block, hunique, fun limits store after => ⟨?_, fun kind => ?_⟩⟩
  · constructor
    · rintro ⟨fuel, machine, hrun, rfl⟩
      obtain ⟨outcome, hnone, hbehaviour⟩ :=
        (runs_iff_behaviour hread hblock).mp (runs_of_run? hrun)
      cases outcome with
      | normal => exact hbehaviour
      | leave count => simp [Outcome.faultKind?, faultKind?] at hnone
      | fault cause => simp [Outcome.faultKind?, faultKind?] at hnone
    · intro hbehaviour
      obtain ⟨n, hruns⟩ := (runs_iff_behaviour hread hblock).mpr ⟨.normal, rfl, hbehaviour⟩
      obtain ⟨result, machine, hrun, hstore, hkind⟩ := hruns.run?
      cases result with
      | ok => exact ⟨n + 1, machine, hrun, hstore⟩
      | error failure => simp [Outcome.faultKind?, faultKind?] at hkind
  · constructor
    · rintro ⟨fuel, failure, machine, hrun, rfl, rfl⟩
      exact (runs_iff_behaviour hread hblock).mp (runs_of_run? hrun)
    · rintro ⟨outcome, hkind, hbehaviour⟩
      obtain ⟨n, hruns⟩ := (runs_iff_behaviour hread hblock).mpr ⟨outcome, hkind, hbehaviour⟩
      obtain ⟨result, machine, hrun, hstore, hkind⟩ := hruns.run?
      cases result with
      | ok => simp [faultKind?] at hkind
      | error failure => exact ⟨n + 1, failure, machine, hrun, Option.some.inj hkind, hstore⟩

/-- From within the inner loop, behind a literal that hides a brace, both loops are left at once. -/
theorem behaviour_of_nested_loops :
    let program := Program.ofString "'a\x7b'b\x7b'\x7b!!\x7d\x7d"
    (lexFrom 0 program.text).stopped = none ∧ AllMatched program.text ∧
      ∃ block after, Reads program.text 0 block 12 ∧
        block.behaviour program {} (.onHeap .empty) .normal after ∧ after.stack.size = 1 := by
  intro program
  have hread : (lexFrom 0 program.text).stopped = none := by decide +kernel
  have hmatched : AllMatched program.text := by decide +kernel
  have hrun : (Machine.run? 10 { program, store := .onHeap .empty }).map
      (fun run => (run.1.toOption, run.2.store.stack.size)) = some (some (), 1) := by
    decide +kernel
  obtain ⟨⟨result, machine⟩, hrun, hshown⟩ := Option.map_eq_some_iff.mp hrun
  obtain ⟨block, hunique, hsame⟩ := run_iff_behaviour hread hmatched
  refine ⟨hread, hmatched, block, machine.store, (hunique block).mpr rfl, ?_, ?_⟩
  · refine (hsame {} (.onHeap .empty) machine.store).1.mp ⟨10, machine, ?_, rfl⟩
    cases result with
    | ok => exact hrun
    | error failure => simp [Except.toOption] at hshown
  · exact congrArg Prod.snd hshown

end GlyphStack
