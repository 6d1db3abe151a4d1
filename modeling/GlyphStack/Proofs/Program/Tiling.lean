import Mathlib.Data.List.TakeWhile
import GlyphStack.Proofs.Machine.Dispatch
import GlyphStack.Proofs.Program.UnitLoops

/-!
Units tile the text. Up to the first unit that cannot be read, or to the end, the text is cut into
units that are not empty, stand one behind the other and leave nothing out (`Sweep.tiles`). A unit
of digits or a word is a whole run of its characters: the next one does not belong to it
(`isRun_of_drop`).

That units are not empty, and that they end within the text, is also what brings the loops over them
to their end; the main statement says all of this of one text (`units_tile`).
-/

namespace GlyphStack.Program

/-! ## 1. Runs -/

section

variable {text rest : List Char} {start : Nat} {first : Char}

/-- The characters from `start` to before `stop` are of the kind `p`, and the next one, if there is
one, is not. -/
structure IsRun (p : Char → Bool) (text : List Char) (start stop : Nat) : Prop where
  inside : ∀ c ∈ text.extract start stop, p c = true
  ends : ∀ c ∈ text[stop]?, p c = false

/-- A character and those behind it that are of its kind are a run. -/
theorem isRun_of_drop {p : Char → Bool} (hrest : text.drop start = first :: rest)
    (hfirst : p first = true) : IsRun p text start (start + 1 + (rest.takeWhile p).length) := by
  have hsplit : text.drop start = (first :: rest.takeWhile p) ++ rest.dropWhile p := by
    rw [List.cons_append, List.takeWhile_append_dropWhile, hrest]
  have hlength : start + 1 + (rest.takeWhile p).length =
      start + (first :: rest.takeWhile p).length := by
    rw [List.length_cons]
    omega
  rw [hlength]
  constructor
  · intro c hc
    rw [List.extract_eq_take_drop, hsplit, Nat.add_sub_cancel_left, List.take_left] at hc
    rcases List.mem_cons.mp hc with rfl | hmem
    · exact hfirst
    · exact List.mem_takeWhile_imp hmem
  · intro c hc
    rw [← List.getElem?_drop, hsplit, List.getElem?_append_right (Nat.le_refl _), Nat.sub_self,
      ← List.head?_eq_getElem?] at hc
    have hnot := List.head?_dropWhile_not p rest
    rw [hc] at hnot
    exact hnot

/-- A unit that is read as far as characters of one kind go is a run of them. -/
theorem isRun_of_unitEnd {p : Char → Bool} {start : Fin text.length} {stop : Nat}
    (hfirst : p (text.get start) = true)
    (hread : ∀ rest, unitTail (text.get start) rest = .ok (rest.takeWhile p).length)
    (h : unitEnd text start = .ok stop) : IsRun p text start stop := by
  obtain ⟨tail, htail, rfl⟩ := unitEnd_eq_ok_iff.mp h
  obtain rfl := Except.ok.inj (htail.symm.trans (hread _))
  exact isRun_of_drop (List.drop_eq_getElem_cons start.isLt) hfirst

theorem isRun_digits {start : Fin text.length} {stop : Nat} (h : unitEnd text start = .ok stop)
    (hdigits : Instruction.ofChar (text.get start) = .digits) :
    IsRun Char.isDigit text start stop :=
  isRun_of_unitEnd (Instruction.isDigit_of_ofChar hdigits)
    (fun rest => by rw [unitTail_eq_tail, hdigits]; rfl) h

theorem isRun_word {start : Fin text.length} {stop : Nat} (h : unitEnd text start = .ok stop)
    (hword : Instruction.ofChar (text.get start) = .word) : IsRun isNameChar text start stop := by
  refine isRun_of_unitEnd ?_ (fun rest => by rw [unitTail_eq_tail, hword]; rfl) h
  rw [isNameChar, Char.isAlphanum, Instruction.isAlpha_of_ofChar hword]
  rfl

end

/-! ## 2. Tilings -/

/-- The characters of a unit. -/
def Lexeme.written (text : List Char) (lexeme : Lexeme) : List Char :=
  text.extract lexeme.start lexeme.stop

/-- The units cover the text from its start up to `stop`: each is read where it starts, none is
empty, each stands where the one before it ends, and together they are that part of the text. -/
structure Tiles (text : List Char) (lexemes : List Lexeme) (stop : Nat) : Prop where
  read : ∀ lexeme ∈ lexemes, ∃ h : lexeme.start < text.length,
    unitEnd text ⟨lexeme.start, h⟩ = .ok lexeme.stop
  nonempty : ∀ lexeme ∈ lexemes, lexeme.written text ≠ []
  consecutive : lexemes.map Lexeme.start ++ [stop] = 0 :: lexemes.map Lexeme.stop
  written : lexemes.flatMap (Lexeme.written text) = text.take stop

section

variable {text : List Char} {p q : Nat} {lexemes : List Lexeme} {lexeme : Lexeme}

theorem UnitAt.written_ne_nil (h : UnitAt text p lexeme) : lexeme.written text ≠ [] := by
  have hlt := h.lt_stop
  have hle := h.stop_le
  rw [← List.length_pos_iff, Lexeme.written, List.extract_eq_take_drop, List.length_take,
    List.length_drop, h.start]
  omega

theorem Sweep.consecutive (h : Sweep text p lexemes q) :
    lexemes.map Lexeme.start ++ [q] = p :: lexemes.map Lexeme.stop := by
  induction h with
  | nil => rfl
  | cons head _ ih => rw [List.map_cons, List.map_cons, List.cons_append, ih, head.start]

theorem extract_append_extract {p m q : Nat} (hpm : p ≤ m) (hmq : m ≤ q) :
    text.extract p m ++ text.extract m q = text.extract p q := by
  simp only [List.extract_eq_take_drop]
  rw [show q - p = (m - p) + (q - m) by omega, List.take_add, List.drop_drop,
    Nat.add_sub_cancel' hpm]

/-- What a sweep passes over is what its units consist of. -/
theorem Sweep.written (h : Sweep text p lexemes q) :
    lexemes.flatMap (Lexeme.written text) = text.extract p q := by
  induction h with
  | nil => simp
  | cons head tail ih =>
    rw [List.flatMap_cons, ih, Lexeme.written, head.start,
      extract_append_extract (Nat.le_of_lt head.lt_stop) tail.le]

/-- The units of a sweep from the start of the text cover it up to where the sweep comes. -/
theorem Sweep.tiles (h : Sweep text 0 lexemes q) : Tiles text lexemes q where
  read lexeme hmem := (h.unitAt hmem).1.unitEnd_eq
  nonempty lexeme hmem := (h.unitAt hmem).1.written_ne_nil
  consecutive := h.consecutive
  written := by rw [h.written, List.extract_eq_take_drop, Nat.sub_zero, List.drop_zero]

/-- A unit that can be read is not empty and ends within the text. -/
theorem bounds_of_unitEnd {start : Fin text.length} {stop : Nat}
    (h : unitEnd text start = .ok stop) : start < stop ∧ stop ≤ text.length := by
  obtain ⟨lexeme, hunit, rfl⟩ := exists_unitAt_of_unitEnd h
  exact ⟨hunit.lt_stop, hunit.stop_le⟩

end

/-! ## 3. Units of a text -/

/-- **Units tile the text.** A unit that can be read is not empty and ends within the text, and if
it is a number in digits or a word it is as long as it can be. So the loop that makes the table of
loops and the one that looks for the way out of a loop come to their ends on every text, and answer
what the table and the way out are defined to be. And the units that a text is cut into cover it
without a gap and without an overlap, up to its end or to the first unit that cannot be read. -/
theorem units_tile (text : List Char) :
    (∀ (start : Fin text.length) (stop : Nat), unitEnd text start = .ok stop →
      start < stop ∧ stop ≤ text.length ∧
      (Instruction.ofChar (text.get start) = .digits → IsRun Char.isDigit text start stop) ∧
      (Instruction.ofChar (text.get start) = .word → IsRun isNameChar text start stop)) ∧
    Answers (tableLoop.turn text) (0, [], [])
      ((LoopTable.ofText text).bodies, (LoopTable.ofText text).stopped.map Prod.fst) ∧
    (∀ start depth, Answers ((exitLoop start).turn text) (start, depth + 1)
      (exitFrom text start (depth + 1))) ∧
    ∃ stop, Tiles text (lexFrom 0 text).lexemes stop ∧
      ((lexFrom 0 text).stopped = none ∧ stop = text.length ∨
        ∃ (h : stop < text.length) (fault : Malformation),
          (lexFrom 0 text).stopped = some (stop, fault) ∧
          unitEnd text ⟨stop, h⟩ = .error (.misread stop (.literal fault))) := by
  refine ⟨fun start stop h => ?_, answers_tableLoop text, answers_exitLoop text, ?_⟩
  · obtain ⟨hlt, hle⟩ := bounds_of_unitEnd h
    exact ⟨hlt, hle, isRun_digits h, isRun_word h⟩
  · obtain ⟨stop, hsweep, hend⟩ := sweep_lexFrom text 0
    refine ⟨stop, hsweep.tiles, ?_⟩
    rcases hend with ⟨hnil, hnone⟩ | ⟨fault, hmisread, hsome⟩
    · have hge := List.drop_eq_nil_iff.mp hnil
      have hle := hsweep.le_length (Nat.zero_le _)
      exact .inl ⟨hnone, Nat.le_antisymm hle hge⟩
    · obtain ⟨hlt, hfault⟩ := hmisread.unitEnd_eq
      exact .inr ⟨hlt, fault, hsome, hfault⟩

/-- The name at 3 is read up to the quote mark at 6 and no further. The literal there hides a brace,
so the loop from 2 ends at 8, and the text at 9, which is open, comes behind five units. -/
theorem tiles_before_open_text :
    let text := "12\x7ba_1'\x7d\x7d\"x".toList
    let lexemes : List Lexeme :=
      [⟨0, '1', 1⟩, ⟨2, '\x7b', 0⟩, ⟨3, 'a', 2⟩, ⟨6, '\'', 1⟩, ⟨8, '\x7d', 0⟩]
    IsRun isNameChar text 3 6 ∧ Tiles text lexemes 9 ∧
      Answers (tableLoop.turn text) (0, [], []) ([(8, 3)], some 9) := by
  intro text lexemes
  have hsweep : Sweep text 0 lexemes 9 :=
    .cons ⟨rfl, _, rfl, rfl⟩ (.cons ⟨rfl, _, rfl, rfl⟩ (.cons ⟨rfl, _, rfl, rfl⟩
      (.cons ⟨rfl, _, rfl, rfl⟩ (.cons ⟨rfl, _, rfl, rfl⟩ (.nil _)))))
  have hopen : lexFrom 9 (text.drop 9) = { lexemes := [], stopped := some (9, .openText) } := by
    rw [show text.drop 9 = ['"', 'x'] from rfl]
    exact lexFrom_cons_error rfl
  have hlex : lexFrom 0 text = { lexemes, stopped := some (9, .openText) } := by
    have hfrom := lexFrom_of_sweep hsweep
    rw [unitsFrom, hopen] at hfrom
    exact hfrom
  have hloops : LoopTable.ofText text =
      { bodies := [(8, 3)], stopped := some (9, .openText) } := by
    rw [LoopTable.ofText, hlex]
    rfl
  obtain ⟨hunits, htable, -, stop, htiles, hend⟩ := units_tile text
  rw [hloops] at htable
  rw [hlex] at htiles hend
  obtain ⟨-, -, -, hword⟩ := hunits ⟨3, by decide⟩ 6 rfl
  rcases hend with ⟨hnone, -⟩ | ⟨-, fault, hsome, -⟩
  · contradiction
  · cases hsome
    exact ⟨hword rfl, htiles, htable⟩

end GlyphStack.Program
