import GlyphStack.Proofs.Program.Matching

/-!
Loops over the units of a text. The table of loops and the way out of a loop are found by two loops
that look at the first character of a unit, go on behind the unit, and stop at the end of the text
or at a unit that cannot be read. Nothing else bounds them: that they come to an end hangs on the
units, each of which takes the loop on and none past the end of the text
(`UnitLoop.exists_answers`).

What such a loop answers is read off the units that are ahead of it, if passing over one unit does
not change what they say (`UnitLoop.AnswersAs`). Three small facts about lists of units show that of
a loop, without a look at the text; for the two loops here they are the equations of `pairLoops` and
`loopExit`.
-/

namespace GlyphStack.Program

/-! ## 1. Loops that come to an end -/

section

variable {σ α : Type}

/-- Turn after turn, each from the state that the one before it leaves, a loop comes to its end and
answers. -/
inductive Answers (turn : σ → α ⊕ σ) : σ → α → Prop where
  | stop {state : σ} {answer : α} (hturn : turn state = .inl answer) : Answers turn state answer
  | again {state next : σ} {answer : α} (hturn : turn state = .inr next)
      (later : Answers turn next answer) : Answers turn state answer

/-- A loop that goes on only to positions further on, within a bound, comes to its end. -/
theorem exists_answers_of_advances {turn : σ → α ⊕ σ} {position : σ → Nat} {bound : Nat}
    (hadvances : ∀ state next, turn state = .inr next →
      position state < position next ∧ position next ≤ bound) (state : σ) :
    ∃ answer, Answers turn state answer := by
  induction hn : bound - position state using Nat.strongRecOn generalizing state with
  | _ n ih =>
    cases hturn : turn state with
    | inl answer => exact ⟨answer, .stop hturn⟩
    | inr next =>
      have hnext := hadvances state next hturn
      obtain ⟨answer, hlater⟩ := ih (bound - position next) (by omega) next rfl
      exact ⟨answer, .again hturn hlater⟩

/-- A loop answers what every turn keeps to, the last one by its answer. -/
theorem Answers.eq_of_kept {turn : σ → α ⊕ σ} {expected : σ → α} {state : σ} {answer : α}
    (hkept : ∀ state, (turn state).elim id expected = expected state)
    (h : Answers turn state answer) : expected state = answer := by
  induction h with
  | stop hturn => rw [← hkept, hturn, Sum.elim_inl, id]
  | again hturn _ ih => rw [← hkept, hturn, Sum.elim_inr, ih]

end

/-! ## 2. Loops over units -/

/-- A loop over the units of a text: what it makes of the first character of a unit, and what it
answers at a unit that cannot be read and at the end of the text. -/
structure UnitLoop (σ α : Type) where
  meet : (position : Nat) → (first : Char) → σ → α ⊕ σ
  misread : (position : Nat) → Fault → σ → α
  finish : σ → α

namespace UnitLoop

variable {σ α : Type} (loop : UnitLoop σ α) {text : List Char}

/-- One turn, at some position of the text. -/
def turn (text : List Char) : Nat × σ → α ⊕ (Nat × σ)
  | (position, state) =>
      if h : position < text.length then
        match loop.meet position text[position] state with
        | .inl answer => .inl answer
        | .inr state =>
            match unitEnd text ⟨position, h⟩ with
            | .ok next => .inr (next, state)
            | .error fault => .inl (loop.misread position fault state)
      else .inl (loop.finish state)

section Equations

variable {p : Nat} (state : σ)

theorem turn_of_drop_eq_nil (h : text.drop p = []) :
    loop.turn text (p, state) = .inl (loop.finish state) := by
  rw [turn, dif_neg (Nat.not_lt.mpr (List.drop_eq_nil_iff.mp h))]

theorem turn_of_unitAt {lexeme : Lexeme} (h : UnitAt text p lexeme) :
    loop.turn text (p, state) =
      (loop.meet p lexeme.first state).map id fun state => (lexeme.stop, state) := by
  obtain ⟨hp, hend⟩ := h.unitEnd_eq
  have hfirst : text[p] = lexeme.first := (List.getElem?_eq_some_iff.mp h.getElem?).2
  rw [turn, dif_pos hp, hfirst, hend]
  cases loop.meet p lexeme.first state <;> rfl

/-- A unit that cannot be read starts with no brace. -/
theorem turn_of_misreadAt {fault : Malformation} (h : MisreadAt text p fault) :
    ∃ first, first ≠ '{' ∧ first ≠ '}' ∧ loop.turn text (p, state) = .inl
      ((loop.meet p first state).elim id (loop.misread p (.misread p (.literal fault)))) := by
  obtain ⟨hp, hend⟩ := h.unitEnd_eq
  obtain ⟨first, rest, hrest, htail⟩ := h
  have hplain : ¬ IsControl first := by
    intro hcontrol
    rw [unitTail_control hcontrol] at htail
    contradiction
  have hfirst : text[p] = first :=
    (List.getElem?_eq_some_iff.mp (getElem?_of_drop_eq_cons hrest)).2
  refine ⟨first, fun h => hplain (.inl h), fun h => hplain (.inr (.inl h)), ?_⟩
  rw [turn, dif_pos hp, hfirst, hend]
  cases loop.meet p first state <;> rfl

end Equations

/-- A turn that does not end the loop takes it on, and not past the end of the text. -/
theorem advances {here next : Nat × σ} (h : loop.turn text here = .inr next) :
    here.1 < next.1 ∧ next.1 ≤ text.length := by
  obtain ⟨p, state⟩ := here
  rcases lexFrom_cases text p with ⟨hnil, -⟩ | ⟨fault, hfault, -⟩ | ⟨lexeme, hunit, -⟩
  · rw [loop.turn_of_drop_eq_nil state hnil] at h
    contradiction
  · obtain ⟨first, -, -, hturn⟩ := loop.turn_of_misreadAt state hfault
    rw [hturn] at h
    contradiction
  · rw [loop.turn_of_unitAt state hunit] at h
    cases hmeet : loop.meet p lexeme.first state with
    | inl answer =>
      rw [hmeet] at h
      contradiction
    | inr later =>
      rw [hmeet] at h
      cases h
      exact ⟨hunit.lt_stop, hunit.stop_le⟩

/-- Every loop over units comes to its end, on every text and from every position. -/
theorem exists_answers (text : List Char) (here : Nat × σ) :
    ∃ answer, Answers (loop.turn text) here answer :=
  exists_answers_of_advances (fun _ _ => loop.advances) here

/-- What the loop answers hangs on its state and on the units that are ahead: `among` says what, and
passing over a unit does not change it. -/
structure AnswersAs (among : σ → Lexing → α) : Prop where
  finish (state : σ) : loop.finish state = among state { lexemes := [], stopped := none }
  misread (state : σ) {p : Nat} {first : Char} {fault : Malformation} (hhead : first ≠ '{')
      (htail : first ≠ '}') :
    (loop.meet p first state).elim id (loop.misread p (.misread p (.literal fault))) =
      among state { lexemes := [], stopped := some (p, fault) }
  meet (state : σ) (ahead : Lexing) {lexeme : Lexeme}
      (htail : lexeme.first = '}' → lexeme.stop = lexeme.start + 1) :
    (loop.meet lexeme.start lexeme.first state).elim id (among · ahead) =
      among state { ahead with lexemes := lexeme :: ahead.lexemes }

variable {loop} {among : σ → Lexing → α}

/-- A turn keeps what the units ahead say. -/
theorem AnswersAs.kept (h : loop.AnswersAs among) (here : Nat × σ) :
    (loop.turn text here).elim id (fun next => among next.2 (lexFrom next.1 (text.drop next.1))) =
      among here.2 (lexFrom here.1 (text.drop here.1)) := by
  obtain ⟨p, state⟩ := here
  rcases lexFrom_cases text p with ⟨hnil, hlex⟩ | ⟨fault, hfault, hlex⟩ | ⟨lexeme, hunit, hlex⟩
  · rw [loop.turn_of_drop_eq_nil state hnil, hlex]
    exact h.finish state
  · obtain ⟨first, hhead, htail, hturn⟩ := loop.turn_of_misreadAt state hfault
    rw [hturn, hlex]
    exact h.misread state hhead htail
  · have hstop (htail : lexeme.first = '}') : lexeme.stop = lexeme.start + 1 := by
      rw [hunit.stop_eq (.inr (.inl htail)), hunit.start]
    rw [loop.turn_of_unitAt state hunit, hlex, Sum.elim_map, ← hunit.start]
    exact h.meet state (lexFrom lexeme.stop (text.drop lexeme.stop)) hstop

/-- A loop answers what the units ahead of its first position say. -/
theorem AnswersAs.answers (h : loop.AnswersAs among) (text : List Char) (p : Nat) (state : σ) :
    Answers (loop.turn text) (p, state) (among state (lexFrom p (text.drop p))) := by
  obtain ⟨answer, hanswer⟩ := loop.exists_answers text (p, state)
  rwa [hanswer.eq_of_kept h.kept]

end UnitLoop

/-! ## 3. The table of loops and the way out of a loop -/

/-- The loop that makes the table of loops. It keeps the heads that are open, innermost first, and
the loop ends that it has found a head for; in the end it answers these and where it had to stop. -/
def tableLoop : UnitLoop (List Nat × List (Nat × Nat)) (List (Nat × Nat) × Option Nat) where
  meet position first := fun (heads, bodies) => .inr <|
    if first = '{' then (position :: heads, bodies)
    else if first = '}' then
      match heads with
      | [] => ([], bodies)
      | head :: heads => (heads, bodies ++ [(position, head + 1)])
    else (heads, bodies)
  misread position _ := fun (_, bodies) => (bodies, some position)
  finish := fun (_, bodies) => (bodies, none)

theorem answersAs_tableLoop : tableLoop.AnswersAs fun (heads, bodies) ahead =>
    (bodies ++ pairLoops heads ahead.lexemes, ahead.stopped.map Prod.fst) where
  finish state := by simp [tableLoop, pairLoops]
  misread := by
    rintro ⟨heads, bodies⟩ p first fault hhead htail
    simp [tableLoop, pairLoops, hhead, htail]
  meet := by
    rintro ⟨heads, bodies⟩ ahead lexeme -
    by_cases hhead : lexeme.first = '{'
    · simp [tableLoop, hhead, pairLoops_head]
    · by_cases htail : lexeme.first = '}'
      · cases heads with
        | nil => simp [tableLoop, htail, pairLoops_tail_nil]
        | cons head heads => simp [tableLoop, htail, pairLoops_tail_cons]
      · simp [tableLoop, hhead, htail, pairLoops_other]

/-- The loop over the units answers the table of the text. -/
theorem answers_tableLoop (text : List Char) : Answers (tableLoop.turn text) (0, [], [])
    ((LoopTable.ofText text).bodies, (LoopTable.ofText text).stopped.map Prod.fst) :=
  answersAs_tableLoop.answers text 0 ([], [])

/-- The loop that looks for the way out of as many loops as its counter says, from `start` on. -/
def exitLoop (start : Nat) : UnitLoop Nat (Except Fault Nat) where
  meet position first depth :=
    if first = '{' then .inr (depth + 1)
    else if first = '}' then
      if depth - 1 = 0 then .inl (.ok (position + 1)) else .inr (depth - 1)
    else .inr depth
  misread _ fault _ := .error fault
  finish _ := .error (.misread (start - 1) .noLoopEnd)

/-- What the search for a way out answers, by the units that are ahead. -/
def exitAmong (start depth : Nat) (ahead : Lexing) : Except Fault Nat :=
  match loopExit depth ahead.lexemes, ahead.stopped with
  | some position, _ => .ok position
  | none, some (position, fault) => .error (.misread position (.literal fault))
  | none, none => .error (.misread (start - 1) .noLoopEnd)

theorem answersAs_exitLoop (start : Nat) : (exitLoop start).AnswersAs (exitAmong start) where
  finish depth := rfl
  misread := by
    intro depth p first fault hhead htail
    simp [exitLoop, exitAmong, loopExit, hhead, htail]
  meet := by
    intro depth ahead lexeme hstop
    by_cases hhead : lexeme.first = '{'
    · simp [exitLoop, exitAmong, hhead, loopExit_head]
    · by_cases htail : lexeme.first = '}'
      · -- the counter comes to zero at the loop end exactly if no more than one loop is open
        by_cases hlast : depth - 1 = 0
        · have hle : depth ≤ 1 := Nat.sub_eq_zero_iff_le.mp hlast
          simp [exitLoop, exitAmong, htail, loopExit, hle, hlast, hstop htail]
        · have hle : ¬ depth ≤ 1 := fun h => hlast (Nat.sub_eq_zero_iff_le.mpr h)
          simp [exitLoop, exitAmong, htail, loopExit, hle, hlast]
      · simp [exitLoop, exitAmong, hhead, htail, loopExit_other]

/-- The loop over the units answers the way out of the loops, if there is one to leave. -/
theorem answers_exitLoop (text : List Char) (start depth : Nat) :
    Answers ((exitLoop start).turn text) (start, depth + 1) (exitFrom text start (depth + 1)) :=
  (answersAs_exitLoop start).answers text start (depth + 1)

end GlyphStack.Program
