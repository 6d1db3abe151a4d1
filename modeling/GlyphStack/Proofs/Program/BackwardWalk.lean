import Mathlib.Data.List.Induction
import GlyphStack.Proofs.Program.Matching

/-!
The way back from a loop end is looked up in a table that one sweep over the text has made. It can
also be walked: the units before the loop end are read from the last one to the first, with a counter
that goes up at each loop end and down at each loop head, and where it comes to zero the loop begins.
Both answer the same at every loop end that the sweep comes to (`bodyStart_eq_walkBack`).

They part ways only over a loop end that closes nothing: the sweep passes over it, and the walk
counts it. By then the sweep has no open head left, and the walk, which has not come to zero yet,
does not come to zero any more. Both are read off one fact about any list of units
(`getElem?_openHeads`): a walk that starts with the counter at `d + 1` comes to zero at the head that
is open around `d` others.
-/

namespace GlyphStack.Program

/-! ## 1. The walk -/

/-- By how much a unit changes the counter of a walk back. -/
def loopWeight (lexeme : Lexeme) : Int :=
  if lexeme.first = '}' then 1 else if lexeme.first = '{' then -1 else 0

/-- Walks over units, the last one of the text first, and changes a counter by the weight of each.
Answers where the unit starts that first brings the counter to zero. -/
def walkBack (counter : Int) : List Lexeme → Option Nat
  | [] => none
  | lexeme :: earlier =>
      if counter + loopWeight lexeme = 0 then some lexeme.start
      else walkBack (counter + loopWeight lexeme) earlier

section Equations

variable {lexeme : Lexeme} (earlier : List Lexeme)

/-- A loop head ends the walk that only this head is left to. -/
theorem walkBack_one_head (h : lexeme.first = '{') :
    walkBack 1 (lexeme :: earlier) = some lexeme.start := by
  simp [walkBack, loopWeight, h]

theorem walkBack_succ_head (d : Nat) (h : lexeme.first = '{') :
    walkBack (d + 2 : Nat) (lexeme :: earlier) = walkBack (d + 1 : Nat) earlier := by
  have hcounter : ((d + 2 : Nat) : Int) + loopWeight lexeme = (d + 1 : Nat) := by
    simp [loopWeight, h]
    omega
  rw [walkBack, hcounter, if_neg (by omega)]

theorem walkBack_tail (d : Nat) (h : lexeme.first = '}') :
    walkBack (d + 1 : Nat) (lexeme :: earlier) = walkBack (d + 2 : Nat) earlier := by
  have hcounter : ((d + 1 : Nat) : Int) + loopWeight lexeme = (d + 2 : Nat) := by
    simp [loopWeight, h]
    omega
  rw [walkBack, hcounter, if_neg (by omega)]

theorem walkBack_other (d : Nat) (h : lexeme.first ≠ '{') (h' : lexeme.first ≠ '}') :
    walkBack (d + 1 : Nat) (lexeme :: earlier) = walkBack (d + 1 : Nat) earlier := by
  have hcounter : ((d + 1 : Nat) : Int) + loopWeight lexeme = (d + 1 : Nat) := by
    simp [loopWeight, h, h']
  rw [walkBack, hcounter, if_neg (by omega)]

end Equations

/-! ## 2. The walk and the open heads -/

/-- The heads that are open behind the units are the ones at which walks back over them end: the
innermost one ends the walk that starts with the counter at one, the next one that with two. -/
theorem getElem?_openHeads (lexemes : List Lexeme) (d : Nat) :
    (openHeads [] lexemes)[d]? = walkBack (d + 1 : Nat) lexemes.reverse := by
  induction lexemes using List.reverseRecOn generalizing d with
  | nil => simp [openHeads, walkBack]
  | append_singleton lexemes lexeme ih =>
    rw [openHeads_append, List.reverse_append, List.reverse_singleton, List.singleton_append]
    by_cases hhead : lexeme.first = '{'
    · cases d with
      | zero => simp [openHeads, hhead, walkBack_one_head]
      | succ d =>
        rw [walkBack_succ_head _ d hhead, ← ih]
        simp [openHeads, hhead]
    · by_cases htail : lexeme.first = '}'
      · rw [walkBack_tail _ d htail, ← ih]
        simp [openHeads, htail]
      · rw [walkBack_other _ d hhead htail, ← ih]
        simp [openHeads, hhead, htail]

/-! ## 3. Loop ends of a text -/

variable {text : List Char} {q : Nat} {before : List Lexeme}

/-- For a loop end that the sweep comes to, the table has the innermost head that is open before
it. -/
theorem lookup_bodies_of_sweep (hbefore : Sweep text 0 before q) (htail : text[q]? = some '}') :
    (LoopTable.ofText text).bodies.lookup q = (openHeads [] before).head?.map (· + 1) := by
  have hunit := UnitAt.of_getElem? htail (.inr (.inl rfl))
  -- no unit before or behind `q` starts there
  have hnotBefore (body : Nat) : (q, body) ∉ pairLoops [] before := by
    intro hmem
    obtain ⟨⟨lexeme, hlexeme, hstart, -⟩, -⟩ := of_mem_pairLoops hmem
    have hlt := (hbefore.unitAt hlexeme).1.lt_stop
    have hle := (hbefore.unitAt hlexeme).2.2
    omega
  have hnotAfter (heads : List Nat) (body : Nat) :
      (q, body) ∉ pairLoops heads (unitsFrom text (q + 1)) := by
    intro hmem
    obtain ⟨stop, hafter, -⟩ := sweep_lexFrom text (q + 1)
    obtain ⟨⟨lexeme, hlexeme, hstart, -⟩, -⟩ := of_mem_pairLoops hmem
    have hle := (hafter.unitAt hlexeme).2.1
    omega
  have hunits : unitsFrom text 0 = before ++ { start := q, first := '}', tail := 0 } ::
      unitsFrom text (q + 1) := by
    rw [unitsFrom_of_sweep hbefore, unitsFrom_of_unitAt hunit]
    rfl
  ext body
  rw [lookup_bodies_eq_some_iff, hunits, pairLoops_append, List.mem_append]
  cases hheads : openHeads [] before with
  | nil => simp [pairLoops_tail_nil, hnotBefore, hnotAfter]
  | cons head heads => simp [pairLoops_tail_cons, hnotBefore, hnotAfter, eq_comm]

/-- **The way back from a loop end is where a count of the braces before it comes to zero.** `before`
are the units that the sweep reads before the loop end. The way back leads behind the loop head at
which the walk over them, from the last to the first, brings a counter from one to zero; if the
counter never comes to zero, the fault is that the loop end has no head. -/
theorem bodyStart_eq_walkBack (hbefore : Sweep text 0 before q) (htail : text[q]? = some '}') :
    (∀ p, (LoopTable.ofText text).bodyStart q = .ok (p + 1) ↔
        walkBack 1 before.reverse = some p) ∧
      (∀ p, walkBack 1 before.reverse = some p → text[p]? = some '{') ∧
      (walkBack 1 before.reverse = none →
        (LoopTable.ofText text).bodyStart q = .error (.misread q .noLoopHead)) := by
  have hwalk : walkBack 1 before.reverse = (openHeads [] before).head? := by
    rw [List.head?_eq_getElem?, getElem?_openHeads]
    rfl
  have hlookup := lookup_bodies_of_sweep hbefore htail
  rw [bodyStart_of_boundary ⟨before, hbefore⟩, hlookup, hwalk]
  cases hheads : (openHeads [] before).head? with
  | none => simp
  | some head =>
    rw [hheads, Option.map_some] at hlookup
    obtain ⟨-, -, p, hp, -, hhead⟩ := of_lookup_bodies hlookup
    obtain rfl : p = head := by omega
    simp [hhead]

/-- The walk back from 6 counts the loop end at 3 and not the brace of the literal, and comes out at
the head at 1; from 7 it comes to the loop end at 0, which closes nothing, and to no head. -/
theorem bodyStart_behind_stray_tail :
    let text := "\x7d\x7b\x7b\x7d'\x7d\x7d\x7d".toList
    (LoopTable.ofText text).bodyStart 6 = .ok 2 ∧
      (LoopTable.ofText text).bodyStart 7 = .error (.misread 7 .noLoopHead) := by
  intro text
  let braces : List Lexeme := [⟨0, '}', 0⟩, ⟨1, '{', 0⟩, ⟨2, '{', 0⟩, ⟨3, '}', 0⟩, ⟨4, '\'', 1⟩]
  have hunits : Sweep text 0 braces 6 :=
    .cons ⟨rfl, _, rfl, rfl⟩ (.cons ⟨rfl, _, rfl, rfl⟩ (.cons ⟨rfl, _, rfl, rfl⟩
      (.cons ⟨rfl, _, rfl, rfl⟩ (.cons ⟨rfl, _, rfl, rfl⟩ (.nil _)))))
  have hunit : Sweep text 6 [⟨6, '}', 0⟩] 7 := .cons ⟨rfl, _, rfl, rfl⟩ (.nil _)
  exact ⟨((bodyStart_eq_walkBack hunits rfl).1 1).mpr rfl,
    (bodyStart_eq_walkBack (hunits.append hunit) rfl).2.2 rfl⟩

end GlyphStack.Program
