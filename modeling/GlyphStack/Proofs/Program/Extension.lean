import GlyphStack.Proofs.Program.Matching

/-!
Texts with more text behind them. What follows a unit can make it longer, or close a literal that was
open, or end a loop; and then the unit was not read before, or no way out of the loop was found. If
the text ends in a space, every answer of the scanners and of the two walks over loops stays what it
was: a run of digits, letters or loop exits has come to its end, and a literal that is closed, a way
out of a loop and a way back to its body lie within the text.
-/

namespace GlyphStack.Program

/-- The text is empty or ends in a space. -/
def SpaceEnded (text : List Char) : Prop :=
  ∀ c ∈ text.getLast?, c = ' '

instance (text : List Char) : Decidable (SpaceEnded text) :=
  decidable_of_iff (text.getLast?.all (· = ' ') = true)
    (by cases h : text.getLast? <;> simp [SpaceEnded, h])

variable {text more : List Char}

theorem SpaceEnded.drop (h : SpaceEnded text) (n : Nat) : SpaceEnded (text.drop n) := by
  intro c hc
  rw [List.getLast?_drop] at hc
  split at hc
  · simp at hc
  · exact h c hc

/-! ## 1. Units -/

/-- A run of characters that a space is none of ends before the space. -/
theorem SpaceEnded.takeWhile_append {first : Char} {rest : List Char} {p : Char → Bool}
    (h : SpaceEnded (first :: rest)) (hp : p ' ' = false) :
    (first :: (rest ++ more)).takeWhile p = (first :: rest).takeWhile p := by
  induction rest generalizing first with
  | nil =>
    obtain rfl : first = ' ' := h first (by simp)
    simp [hp]
  | cons second rest ih =>
    have hrest : (second :: (rest ++ more)).takeWhile p = (second :: rest).takeWhile p :=
      ih (h.drop 1)
    simp only [List.cons_append, List.takeWhile_cons] at hrest ⊢
    rw [hrest]

theorem textUpTo_append {delimiter : Char} {rest : List Char} {found : List Char × Nat}
    (h : textUpTo delimiter rest = some found) :
    textUpTo delimiter (rest ++ more) = some found := by
  fun_induction textUpTo delimiter rest generalizing found with
  | case1 => contradiction
  | case2 => contradiction
  | case3 escaped rest ih =>
    obtain ⟨inner, hinner, rfl⟩ := Option.map_eq_some_iff.mp h
    simp [textUpTo, ih hinner]
  | case4 rest hescape =>
    rw [List.cons_append, textUpTo.eq_def]
    simpa [hescape] using h
  | case5 c rest hescape hdelimiter ih =>
    obtain ⟨inner, hinner, rfl⟩ := Option.map_eq_some_iff.mp h
    rw [List.cons_append, textUpTo.eq_def]
    simp [hescape, hdelimiter, ih hinner]

theorem closingParen_append {depth : Nat} {rest : List Char} {n : Nat}
    (h : closingParen depth rest = some n) : closingParen depth (rest ++ more) = some n := by
  fun_induction closingParen depth rest generalizing n with
  | case1 => contradiction
  | case2 depth rest ih =>
    obtain ⟨m, hm, rfl⟩ := Option.map_eq_some_iff.mp h
    simp [closingParen, ih hm]
  | case3 depth rest hdepth => simpa [closingParen, hdepth] using h
  | case4 depth rest hdepth _ ih =>
    obtain ⟨m, hm, rfl⟩ := Option.map_eq_some_iff.mp h
    simp [closingParen, hdepth, ih hm]
  | case5 depth c rest hopen hclose ih =>
    obtain ⟨m, hm, rfl⟩ := Option.map_eq_some_iff.mp h
    simp [closingParen, hopen, hclose, ih hm]

/-- A delimited literal that is closed is the same with more text behind. -/
theorem delimited_append {first : Char} {rest : List Char} {found : String × Nat}
    (h : delimited (first :: rest) = .ok found) :
    delimited (first :: (rest ++ more)) = .ok found := by
  simp only [delimited] at h ⊢
  split at h
  · rename_i hfound
    rw [textUpTo_append hfound]
    exact h
  · contradiction

theorem parenClose_append {rest : List Char} {n : Nat} (h : parenClose rest = .ok n) :
    parenClose (rest ++ more) = .ok n := by
  unfold parenClose at h ⊢
  split at h
  · rename_i hfound
    rw [closingParen_append hfound]
    exact h
  · contradiction

theorem character_append {rest : List Char} {c : Char} (h : character rest = .ok c) :
    character (rest ++ more) = .ok c := by
  match rest with
  | [] => contradiction
  | [_] => contradiction
  | _ :: _ :: _ => exact h

/-- A unit that can be read is the same unit with more text behind. -/
theorem SpaceEnded.unitTail_append {first : Char} {rest : List Char} {n : Nat}
    (h : SpaceEnded (first :: rest)) (hread : unitTail first rest = .ok n) :
    unitTail first (rest ++ more) = .ok n := by
  unfold unitTail at hread ⊢
  split_ifs at hread ⊢ with hquote htext hparen hdigit halpha
  · obtain ⟨c, hc, hn⟩ := of_map_eq_ok hread
    rw [← List.cons_append, character_append hc, ← hn]
    rfl
  · obtain ⟨text, hdelimited⟩ := delimited_of_tail hread
    rw [delimited_append hdelimited]
    rfl
  · exact parenClose_append hread
  · have hrun : (first :: (rest ++ more)).takeWhile Char.isDigit =
        (first :: rest).takeWhile Char.isDigit := h.takeWhile_append rfl
    have hfirst : first.isDigit = true := by simp_all
    simp only [List.takeWhile_cons, hfirst, if_true, List.cons.injEq, true_and] at hrun
    rw [digitRun, hrun]
    exact hread
  · have hrun : (first :: (rest ++ more)).takeWhile isNameChar =
        (first :: rest).takeWhile isNameChar := h.takeWhile_append rfl
    have hfirst : isNameChar first = true := by simp [isNameChar, Char.isAlphanum, halpha]
    simp only [List.takeWhile_cons, hfirst, if_true, List.cons.injEq, true_and] at hrun
    rw [nameRun, hrun]
    exact hread
  · exact hread

/-! ## 2. Sweeps and loops -/

section

variable {p q : Nat} {lexeme : Lexeme} {lexemes : List Lexeme}

theorem UnitAt.append (h : UnitAt text p lexeme) (hended : SpaceEnded text) :
    UnitAt (text ++ more) p lexeme := by
  obtain ⟨rest, hrest, hread⟩ := h.read
  refine ⟨h.start, rest ++ more, ?_, ?_⟩
  · have hle : p ≤ text.length := Nat.le_trans (Nat.le_of_lt h.lt_stop) h.stop_le
    rw [List.drop_append_of_le_length hle, hrest, List.cons_append]
  · exact SpaceEnded.unitTail_append (hrest ▸ hended.drop p) hread

/-- A sweep over the text is one over the longer text. -/
theorem Sweep.extend (h : Sweep text p lexemes q) (hended : SpaceEnded text) :
    Sweep (text ++ more) p lexemes q := by
  induction h with
  | nil p => exact .nil p
  | cons head _ ih => exact .cons (head.append hended) ih

theorem Boundary.append (h : Boundary text p) (hended : SpaceEnded text) :
    Boundary (text ++ more) p := by
  obtain ⟨lexemes, hsweep⟩ := h
  exact ⟨lexemes, hsweep.extend hended⟩

theorem loopExit_append {depth target : Nat} {lexemes later : List Lexeme}
    (h : loopExit depth lexemes = some target) :
    loopExit depth (lexemes ++ later) = some target := by
  induction lexemes generalizing depth with
  | nil => contradiction
  | cons lexeme lexemes ih =>
    rw [List.cons_append, loopExit]
    rw [loopExit] at h
    split_ifs at h ⊢
    · exact ih h
    · exact h
    · exact ih h
    · exact ih h

/-- A way out of loops that is found is found in the longer text, too. -/
theorem SpaceEnded.exitFrom_append {start depth target : Nat} (hended : SpaceEnded text)
    (h : exitFrom text start depth = .ok target) :
    exitFrom (text ++ more) start depth = .ok target := by
  rcases Nat.eq_zero_or_pos depth with rfl | hdepth
  · exact h
  · obtain ⟨stop, hsweep, -⟩ := sweep_lexFrom text start
    rw [exitFrom_eq_ok_iff hdepth] at h ⊢
    rw [unitsFrom_of_sweep (hsweep.extend hended)]
    exact loopExit_append h

/-- The loops of the text are loops of the longer text. -/
theorem IsLoop.append (h : IsLoop text p q) (hended : SpaceEnded text) :
    IsLoop (text ++ more) p q where
  boundary := h.boundary.append hended
  head := by
    obtain ⟨hlt, -⟩ := List.getElem?_eq_some_iff.mp h.head
    rw [List.getElem?_append_left hlt]
    exact h.head
  exit := hended.exitFrom_append h.exit

/-- A way back to the body of a loop is the same in the longer text. -/
theorem SpaceEnded.bodyStart_append {target : Nat} (hended : SpaceEnded text)
    (hq : Boundary text q) (h : (LoopTable.ofText text).bodyStart q = .ok target) :
    (LoopTable.ofText (text ++ more)).bodyStart q = .ok target := by
  rcases bodyStart_cases hq with ⟨p, hloop, hfound⟩ | ⟨-, hnone⟩
  · rw [(hloop.append hended).bodyStart, ← hfound, h]
  · rw [hnone] at h
    contradiction

end

end GlyphStack.Program
