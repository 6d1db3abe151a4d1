import Mathlib.Data.ENat.Lattice
import Mathlib.Data.Set.Card
import GlyphStack.Proofs.Machine.Stepping

/-!
Runs within a budget, against runs to the end and against single steps. `units` is how many units a
run from a machine carries out, the one that fails included; it is infinite if the run has no end. A
run within a budget of `n` units, `n` not zero, is the run to the end if that takes at most `n`, and
otherwise it has done what `n` steps do and fails for want of budget.

Where a run ends is said by `isFinished` alone. Up to there every step carries out a unit or fails,
and from there on nothing changes (section 1), so what a run up to some number of units leaves is the
machine after as many steps (section 2).

The budget is compared with the count of units behind each unit (`turns`), and so a budget of zero
lets one unit through, as a budget of one does (section 4).
-/

namespace GlyphStack.Machine

variable {machine : Machine} {k n : Nat}

/-! ## 1. Where a run ends -/

/-- How many units a run from the machine carries out. -/
noncomputable def units (machine : Machine) : ℕ∞ :=
  {k : Nat | (machine.stepped k).unit?.isSome}.encard

/-- Before a machine that is not finished no other one was. -/
theorem running_stepped_of_le (hle : k ≤ n) (h : (machine.stepped n).isFinished = false) :
    (machine.stepped k).isFinished = false := by
  induction hle with
  | refl => exact h
  | @step n _ ih =>
    cases hfinished : (machine.stepped n).isFinished with
    | false => exact ih hfinished
    | true =>
      rw [← step_stepped, step_of_isFinished hfinished, isFinished_of_halted rfl] at h
      contradiction

/-- A run has more than `n` units where `n` steps leave one to carry out. -/
theorem lt_units_iff : (n : ℕ∞) < machine.units ↔ (machine.stepped n).isFinished = false := by
  let running : Set Nat := {k | (machine.stepped k).unit?.isSome}
  have hmem (k : Nat) : k ∈ running ↔ (machine.stepped k).isFinished = false := by
    show ((machine.stepped k).unit?.isSome : Prop) ↔ _
    rw [Option.isSome_iff_ne_none, ne_eq, ← isFinished_iff, Bool.not_eq_true]
  have hcard (k : Nat) : (Finset.range k : Set Nat).encard = k := by
    rw [Set.encard_coe_eq_coe_finsetCard, Finset.card_range]
  constructor
  · intro hlt
    by_contra hfinished
    have hsubset : running ⊆ Finset.range n := by
      intro k hk
      by_contra hge
      have hle : n ≤ k := by simpa using hge
      exact hfinished (running_stepped_of_le hle ((hmem k).mp hk))
    have hle : machine.units ≤ n := (Set.encard_le_encard hsubset).trans_eq (hcard n)
    exact not_lt.mpr hle hlt
  · intro hrunning
    have hsubset : (Finset.range (n + 1) : Set Nat) ⊆ running := by
      intro k hk
      have hle : k ≤ n := by simpa [Nat.lt_succ_iff] using hk
      exact (hmem k).mpr (running_stepped_of_le hle hrunning)
    have hle : ((n + 1 : Nat) : ℕ∞) ≤ machine.units :=
      (hcard (n + 1)).symm.trans_le (Set.encard_le_encard hsubset)
    exact lt_of_lt_of_le (Nat.cast_lt.mpr (Nat.lt_succ_self n)) hle

theorem units_le_iff : machine.units ≤ n ↔ (machine.stepped n).isFinished = true := by
  rw [← not_lt, lt_units_iff, Bool.not_eq_false]

/-! ## 2. Runs up to some number of units -/

/-- A step of a machine that is not finished goes on, or it fails and halts the machine. -/
theorem step_cases_of_running (h : machine.isFinished = false) :
    (∃ next, machine.step = (.continued, next)) ∨
      ∃ failure next, machine.step = (.failed failure, next) ∧ next.halted = true := by
  rcases step_cases machine with ⟨-, hstep⟩ | ⟨-, -, hstep⟩ | ⟨_, _, -, hstep⟩ | ⟨_, _, -, hstep⟩
  · exact absurd (congrArg Prod.fst hstep) (step_ne_done h)
  · exact absurd (congrArg Prod.fst hstep) (step_ne_done h)
  · exact .inl ⟨_, hstep⟩
  · exact .inr ⟨_, _, hstep, rfl⟩

/-- A run that is not at its end has made its steps. -/
theorem runUpTo_of_running (h : (machine.stepped n).isFinished = false) :
    machine.runUpTo n = (.unfinished, machine.stepped n) := by
  induction n generalizing machine with
  | zero =>
    rw [stepped_zero] at h
    simp [runUpTo, h]
  | succ n ih =>
    have hrunning := running_stepped_of_le (Nat.zero_le _) h
    rcases step_cases_of_running hrunning with ⟨next, hstep⟩ | ⟨failure, next, hstep, hhalted⟩
    · rw [stepped_zero] at hstep
      rw [stepped_succ, hstep] at h ⊢
      rw [runUpTo, hstep]
      exact ih h
    · rw [stepped_zero] at hstep
      rw [stepped_succ, hstep, stepped_of_halted hhalted, isFinished_of_halted hhalted] at h
      contradiction

/-- A run that is at its end has made its steps and is halted, however many units more it was
given. -/
theorem runUpTo_of_finished (h : (machine.stepped n).isFinished = true) :
    ∃ ending, ending ≠ .unfinished ∧
      ∀ units, n ≤ units → machine.runUpTo units =
        (ending, { machine.stepped n with halted := true }) := by
  induction n generalizing machine with
  | zero => exact ⟨.finished, by simp, fun units _ => runUpTo_of_isFinished h units⟩
  | succ n ih =>
    cases hnow : machine.isFinished with
    | true =>
      refine ⟨.finished, by simp, fun units _ => ?_⟩
      rw [runUpTo_of_isFinished hnow, stepped_succ, step_of_isFinished hnow,
        stepped_of_halted rfl]
    | false =>
      rcases step_cases_of_running hnow with ⟨next, hstep⟩ | ⟨failure, next, hstep, hhalted⟩
      · rw [stepped_succ, hstep] at h ⊢
        obtain ⟨ending, hending, hrun⟩ := ih h
        refine ⟨ending, hending, fun units hle => ?_⟩
        cases units with
        | zero => contradiction
        | succ units =>
          rw [runUpTo, hstep]
          exact hrun units (Nat.le_of_succ_le_succ hle)
      · refine ⟨.failed failure, by simp, fun units hle => ?_⟩
        cases units with
        | zero => contradiction
        | succ units =>
          rw [runUpTo, stepped_succ, hstep, stepped_of_halted hhalted, ← hhalted]

/-- No step of a finished machine fails, and none of those after it. -/
theorem step_stepped_of_isFinished (h : machine.isFinished = true) (k : Nat) :
    (machine.stepped k).step.1 = .done := by
  cases k with
  | zero => rw [stepped_zero, step_of_isFinished h]
  | succ k => rw [stepped_succ, step_of_isFinished h, stepped_of_halted rfl, step_of_halted rfl]

/-- A run fails exactly if one of its steps does, and with the same failure. -/
theorem runUpTo_failed_iff {failure : Failure} :
    (machine.runUpTo n).1 = .failed failure ↔
      ∃ k < n, (machine.stepped k).step.1 = .failed failure := by
  induction n generalizing machine with
  | zero =>
    rw [runUpTo]
    split <;> simp
  | succ n ih =>
    rw [Nat.exists_lt_succ_left, stepped_zero]
    cases hnow : machine.isFinished with
    | true =>
      have hlater (k : Nat) : (machine.stepped (k + 1)).step.1 ≠ .failed failure := by
        simp [step_stepped_of_isFinished hnow]
      simp [runUpTo_of_isFinished hnow, step_of_isFinished hnow, hlater]
    | false =>
      simp only [stepped_succ]
      rcases step_cases_of_running hnow with ⟨next, hstep⟩ | ⟨other, next, hstep, hhalted⟩
      · simp [runUpTo, hstep, ih]
      · have hlater (k : Nat) : (next.stepped k).step.1 ≠ .failed failure := by
          simp [step_stepped_of_isFinished (isFinished_of_halted hhalted)]
        simp [runUpTo, hstep, hlater]

theorem error_of_run?_iff {fuel : Nat} {result : Except Failure Unit} {after : Machine}
    {failure : Failure} (h : machine.run? fuel = some (result, after)) :
    result = .error failure ↔ ∃ k < fuel, (machine.stepped k).step.1 = .failed failure := by
  rw [← runUpTo_failed_iff]
  unfold run? at h
  split at h <;> rename_i hrun <;> simp only [hrun, Option.some.injEq, Prod.mk.injEq] at h ⊢
  · simp [← h.1]
  · simp [← h.1]
  · contradiction

/-- The machine goes on for `k` steps and is at the end of its program then, which halts it. -/
structure EndsAfter (machine after : Machine) (k : Nat) : Prop where
  continued : ∀ i < k, (machine.stepped i).step.1 = .continued
  finished : (machine.stepped k).isFinished = true
  halted : after = { machine.stepped k with halted := true }

theorem EndsAfter.zero (h : machine.isFinished = true) :
    machine.EndsAfter { machine with halted := true } 0 where
  continued i hi := absurd hi (Nat.not_lt_zero i)
  finished := h
  halted := rfl

/-- A machine comes to its end one step after the next one does. -/
theorem EndsAfter.succ {next after : Machine} (h : next.EndsAfter after k)
    (hstep : machine.step = (.continued, next)) : machine.EndsAfter after (k + 1) := by
  have hstepped (i : Nat) : machine.stepped (i + 1) = next.stepped i := by
    rw [stepped_succ, hstep]
  refine ⟨fun i hi => ?_, ?_, ?_⟩
  · cases i with
    | zero => rw [stepped_zero, hstep]
    | succ i =>
      rw [hstepped]
      exact h.continued i (Nat.lt_of_succ_lt_succ hi)
  · rw [hstepped]
    exact h.finished
  · rw [hstepped]
    exact h.halted

/-- A run that comes to the end of its program has gone on at every step before. -/
theorem endsAfter_of_runUpTo {after : Machine} (h : machine.runUpTo n = (.finished, after)) :
    ∃ k, machine.EndsAfter after k := by
  have atOnce {machine : Machine} {n : Nat} (hfinished : machine.isFinished = true)
      (h : machine.runUpTo n = (.finished, after)) : ∃ k, machine.EndsAfter after k := by
    rw [runUpTo_of_isFinished hfinished, Prod.mk.injEq] at h
    obtain ⟨-, rfl⟩ := h
    exact ⟨0, .zero hfinished⟩
  induction n generalizing machine with
  | zero =>
    cases hfinished : machine.isFinished with
    | true => exact atOnce hfinished h
    | false => simp [runUpTo, hfinished] at h
  | succ n ih =>
    cases hfinished : machine.isFinished with
    | true => exact atOnce hfinished h
    | false =>
      rcases step_cases_of_running hfinished with ⟨next, hstep⟩ | ⟨failure, next, hstep, -⟩
      · rw [runUpTo, hstep] at h
        obtain ⟨k, hends⟩ := ih h
        exact ⟨k + 1, hends.succ hstep⟩
      · simp [runUpTo, hstep] at h

/-- Where a run is at its end after `n` units, there is one result: that of every run to the end and
of every run within a budget that is given as many. -/
theorem runs_of_finished (h : (machine.stepped n).isFinished = true) :
    ∃ result : Except Failure Unit,
      (∀ fuel, n ≤ fuel →
        machine.run? fuel = some (result, { machine.stepped n with halted := true })) ∧
      ∀ budget, n ≤ max budget 1 →
        machine.runWithBudget budget = (result, { machine.stepped n with halted := true }) := by
  obtain ⟨ending, hending, hrun⟩ := runUpTo_of_finished h
  cases ending with
  | finished =>
    refine ⟨.ok (), fun fuel hle => ?_, fun budget hle => ?_⟩
    · rw [run?, hrun fuel hle]
    · rw [runWithBudget, hrun _ hle]
  | failed failure =>
    refine ⟨.error failure, fun fuel hle => ?_, fun budget hle => ?_⟩
    · rw [run?, hrun fuel hle]
    · rw [runWithBudget, hrun _ hle]
  | unfinished => contradiction

/-- There is an answer of a run to the end as soon as it has the units that it carries out. -/
theorem isSome_run?_iff (machine : Machine) (fuel : Nat) :
    (machine.run? fuel).isSome = true ↔ machine.units ≤ fuel := by
  rw [units_le_iff]
  cases hfinished : (machine.stepped fuel).isFinished with
  | false => simp [run?, runUpTo_of_running hfinished]
  | true =>
    obtain ⟨result, hrun, -⟩ := runs_of_finished hfinished
    simp [hrun fuel (Nat.le_refl _)]

/-- A run that comes to the end of its program has had every unit on the way carried out. -/
theorem endsAfter_of_run? {fuel : Nat} {after : Machine}
    (h : machine.run? fuel = some (.ok (), after)) :
    ∃ k : Nat, machine.units = k ∧ machine.EndsAfter after k := by
  have hfinished : machine.runUpTo fuel = (.finished, after) := by
    unfold run? at h
    split at h <;> simp_all
  obtain ⟨k, hends⟩ := endsAfter_of_runUpTo hfinished
  refine ⟨k, le_antisymm (units_le_iff.mpr hends.finished) (not_lt.mp fun hlt => ?_), hends⟩
  -- a run of fewer units would be at its end before one of these steps
  obtain ⟨j, hj⟩ := ENat.ne_top_iff_exists.mp hlt.ne_top
  rw [← hj, Nat.cast_lt] at hlt
  have hdone := congrArg Prod.fst (step_of_isFinished (units_le_iff.mp hj.ge))
  rw [hends.continued j hlt] at hdone
  contradiction

/-! ## 3. Runs within a budget -/

/-- With units left when the budget is used up, a run within it has made as many steps and fails. -/
theorem runWithBudget_of_lt_units {budget : Nat} (h : ((max budget 1 : Nat) : ℕ∞) < machine.units) :
    machine.runWithBudget budget = (machine.stepped (max budget 1)).outOfBudget budget := by
  rw [runWithBudget, runUpTo_of_running (lt_units_iff.mp h)]

/-- A run that is at its end within the budget is the run to the end. -/
theorem runWithBudget_of_units_le {budget fuel : Nat}
    (h : machine.units ≤ (max budget 1 : Nat)) (hfuel : machine.units ≤ fuel) :
    machine.run? fuel = some (machine.runWithBudget budget) := by
  have hfinished : (machine.stepped (min (max budget 1) fuel)).isFinished = true := by
    rw [← units_le_iff]
    rcases min_choice (max budget 1) fuel with hmin | hmin <;> rwa [hmin]
  obtain ⟨result, hrun, hbudgeted⟩ := runs_of_finished hfinished
  rw [hrun fuel (Nat.min_le_right _ _), hbudgeted budget (Nat.min_le_left _ _)]

/-- **A run within a budget and the run to the end.** The run to the end has an answer as soon as it
has the units that it carries out. If these are no more than `n`, the run within a budget of `n` gives
the same result and leaves the same machine, and so the same outputs. If they are more, or have no
end, the run within the budget fails: the one place that the failure names is that of the unit that
comes next, and the machine is the one after `n` steps, but halted. -/
theorem runWithBudget_eq_run {machine : Machine} {n : Nat} (hn : 1 ≤ n) :
    (∀ fuel : Nat, (machine.run? fuel).isSome = true ↔ machine.units ≤ fuel) ∧
    (machine.units ≤ n →
      ∀ fuel : Nat, machine.units ≤ fuel → machine.run? fuel = some (machine.runWithBudget n)) ∧
    (n < machine.units → machine.runWithBudget n =
      (.error { fault := .stepLimit n,
                trace := [machine.program.traceFrame (machine.stepped n).position] },
        { machine.stepped n with halted := true })) := by
  have hmax : max n 1 = n := Nat.max_eq_left hn
  have hprogram := (reachable_stepped machine n).program_limits.1
  refine ⟨isSome_run?_iff machine, fun hle fuel hfuel => ?_, fun hlt => ?_⟩
  · exact runWithBudget_of_units_le (by rwa [hmax]) hfuel
  · rw [runWithBudget_of_lt_units (by rwa [hmax]), hmax, ← hprogram]
    rfl

/-- A loop without an end is stopped after five units, before it emits `b` a second time, and a text
of two units comes to its end within a budget of two. -/
theorem runWithBudget_of_loop :
    let loop := onHeap .empty "a\x7b`b`c\x7d"
    let text := onHeap .empty "'a~"
    (5 < loop.units ∧ loop.runWithBudget 5 =
      (.error { fault := .stepLimit 5, trace := [loop.program.traceFrame (loop.stepped 5).position] },
        { loop.stepped 5 with halted := true })) ∧
      (text.units ≤ 2 ∧ text.run? 2 = some (text.runWithBudget 2)) := by
  intro loop text
  have hloop : (5 : Nat) < loop.units := lt_units_iff.mpr (by decide +kernel)
  have htext : text.units ≤ (2 : Nat) := units_le_iff.mpr (by decide +kernel)
  exact ⟨⟨hloop, (runWithBudget_eq_run (by decide)).2.2 hloop⟩,
    htext, (runWithBudget_eq_run (by decide)).2.1 htext 2 htext⟩

/-! ## 4. The bound -/

/-- A run within a budget turn by turn, with `spent` units carried out before: behind every unit the
count goes up, and if the budget is reached then and units are left, the run fails. There is no
answer if that takes more than so many turns. -/
def turns (budget : Nat) : (left spent : Nat) → Machine → Option (Except Failure Unit × Machine)
  | 0, _, _ => none
  | left + 1, spent, machine =>
      match machine.step with
      | (.continued, machine) =>
          if budget ≤ spent + 1 ∧ machine.isFinished = false then
            some (machine.outOfBudget budget)
          else turns budget left (spent + 1) machine
      | (.done, machine) => some (.ok (), machine)
      | (.failed failure, machine) => some (.error failure, machine)

/-- The turns end, at most one of them behind the units of the budget, with the answer of the run
within the budget. -/
theorem turns_eq {budget left spent : Nat} (h : max (budget - spent) 1 < left) :
    turns budget left spent machine =
      some (match machine.runUpTo (max (budget - spent) 1) with
        | (.finished, machine) => (.ok (), machine)
        | (.failed failure, machine) => (.error failure, machine)
        | (.unfinished, machine) => machine.outOfBudget budget) := by
  induction left generalizing spent machine with
  | zero => omega
  | succ left ih =>
    obtain ⟨units, hunits⟩ : ∃ units, max (budget - spent) 1 = units + 1 :=
      Nat.exists_eq_succ_of_ne_zero (by omega)
    rw [hunits, turns, runUpTo]
    cases hstep : machine.step with
    | mk result next =>
      cases result with
      | done => rfl
      | failed failure => rfl
      | continued =>
        dsimp only
        by_cases hspent : budget ≤ spent + 1
        · -- the budget is used up with this unit
          obtain rfl : units = 0 := by omega
          cases hfinished : next.isFinished with
          | false => simp [hspent, runUpTo, hfinished]
          | true =>
            obtain ⟨left, rfl⟩ : ∃ k, left = k + 1 := Nat.exists_eq_succ_of_ne_zero (by omega)
            simp [turns, runUpTo, hfinished, step_of_isFinished hfinished]
        · have hmore : max (budget - (spent + 1)) 1 = units := by omega
          rw [if_neg fun hout => hspent hout.1, ih (by omega), hmore]

/-- **What a run within a budget carries out.** The count that is looked at behind every unit stops
the run in time: its turns come to the answer of the run within the budget. The units that it has
carried out by then are all that the run to the end has, or as many as the budget says; of a budget of
zero, one. It leaves the machine after as many steps, halted. -/
theorem runWithBudget_stepped (machine : Machine) (budget : Nat) :
    turns budget (max budget 1 + 1) 0 machine = some (machine.runWithBudget budget) ∧
    ∃ k : Nat, (1 ≤ budget → k ≤ budget) ∧ (k : ℕ∞) = min machine.units (max budget 1 : Nat) ∧
      (machine.runWithBudget budget).2 = { machine.stepped k with halted := true } := by
  refine ⟨turns_eq (Nat.lt_succ_self _), ?_⟩
  rcases lt_or_ge ((max budget 1 : Nat) : ℕ∞) machine.units with hlt | hle
  · refine ⟨max budget 1, fun h => (Nat.max_eq_left h).le, (min_eq_right hlt.le).symm, ?_⟩
    rw [runWithBudget_of_lt_units hlt]
    rfl
  · obtain ⟨k, hk⟩ := ENat.ne_top_iff_exists.mp (ne_top_of_le_ne_top (ENat.natCast_ne_top _) hle)
    have hbound : k ≤ max budget 1 := by
      rw [← hk] at hle
      exact Nat.cast_le.mp hle
    have hfinished : (machine.stepped k).isFinished = true := units_le_iff.mp hk.ge
    obtain ⟨result, -, hbudgeted⟩ := runs_of_finished hfinished
    refine ⟨k, fun h => hbound.trans (Nat.max_eq_left h).le, hk.trans (min_eq_left hle).symm, ?_⟩
    rw [hbudgeted budget hbound]

/-- A run within a budget of zero units has sent a text out, and no units lead there. -/
theorem unit_within_empty_budget :
    ¬ ∃ k ≤ 0, ((onHeap .empty "`x``y`").runWithBudget 0).2.store.output =
      ((onHeap .empty "`x``y`").stepped k).store.output := by
  rintro ⟨k, hk, h⟩
  obtain rfl : k = 0 := Nat.le_zero.mp hk
  revert h
  decide +kernel

end GlyphStack.Machine
