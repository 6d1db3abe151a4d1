import Mathlib.Data.List.Basic
import GlyphStack.Program.Loops

/-!
The sweep over a text: unit after unit from a position on, up to the end of the text or to the first
unit that cannot be read. Positions that the sweep from the start of the text comes to are the
boundaries of its units.

`lexFrom` computes the sweep on what is left of the text. The lemmas here read it back on positions
of the whole text: `lexFrom_cases` says what stands at one position, `lexFrom_of_sweep` that cutting
may be taken up again at every position that a sweep comes to, and `sweep_lexFrom` that what
`lexFrom` answers is a sweep. Later modules argue on sweeps and do not open `lexFrom` again.
-/

namespace GlyphStack.Program

/-! ## 1. One unit -/

/-- The unit that starts at position `p` of the text can be read, and is this one. -/
structure UnitAt (text : List Char) (p : Nat) (lexeme : Lexeme) : Prop where
  start : lexeme.start = p
  read : ∃ rest, text.drop p = lexeme.first :: rest ∧
    unitTail lexeme.first rest = .ok lexeme.tail

/-- At position `p` of the text a unit starts that cannot be read. -/
def MisreadAt (text : List Char) (p : Nat) (fault : Malformation) : Prop :=
  ∃ first rest, text.drop p = first :: rest ∧ unitTail first rest = .error fault

/-- A delimited text ends within the rest, and its delimiter belongs to it. -/
theorem textUpTo_bounds (delimiter : Char) (rest : List Char) {text : List Char} {n : Nat}
    (h : textUpTo delimiter rest = some (text, n)) : 1 ≤ n ∧ n ≤ rest.length := by
  fun_induction textUpTo delimiter rest generalizing text n with
  | case1 => simp at h
  | case2 => simp at h
  | case3 escaped rest ih =>
    obtain ⟨⟨inner, m⟩, hm, hn⟩ := Option.map_eq_some_iff.mp h
    have := ih hm
    simp only [Prod.mk.injEq] at hn
    simp only [List.length_cons]
    omega
  | case4 =>
    simp only [Option.some.injEq, Prod.mk.injEq] at h
    simp only [List.length_cons]
    omega
  | case5 c rest _ _ ih =>
    obtain ⟨⟨inner, m⟩, hm, hn⟩ := Option.map_eq_some_iff.mp h
    have := ih hm
    simp only [Prod.mk.injEq] at hn
    simp only [List.length_cons]
    omega

/-- A closing parenthesis that is found stands in the rest. -/
theorem closingParen_lt (depth : Nat) (rest : List Char) {n : Nat}
    (h : closingParen depth rest = some n) : n < rest.length := by
  fun_induction closingParen depth rest generalizing n with
  | case1 => simp at h
  | case2 depth rest ih =>
    obtain ⟨m, hm, rfl⟩ := Option.map_eq_some_iff.mp h
    simpa using ih hm
  | case3 => simp at h; simp [← h]
  | case4 depth rest _ _ ih =>
    obtain ⟨m, hm, rfl⟩ := Option.map_eq_some_iff.mp h
    simpa using ih hm
  | case5 depth c rest _ _ ih =>
    obtain ⟨m, hm, rfl⟩ := Option.map_eq_some_iff.mp h
    simpa using ih hm

/-- A delimited literal has both its delimiters and ends within the text. -/
theorem delimited_bounds {delimiter : Char} {rest : List Char} {text : String} {n : Nat}
    (h : delimited (delimiter :: rest) = .ok (text, n)) : 2 ≤ n ∧ n ≤ rest.length + 1 := by
  simp only [delimited] at h
  split at h
  · rename_i inner m hm
    have := textUpTo_bounds _ _ hm
    simp only [Except.ok.injEq, Prod.mk.injEq] at h
    omega
  · simp at h

theorem of_map_eq_ok {ε α β : Type} {result : Except ε α} {change : α → β} {b : β}
    (h : result.map change = .ok b) : ∃ a, result = .ok a ∧ change a = b := by
  cases result with
  | ok a => exact ⟨a, rfl, Except.ok.inj h⟩
  | error fault => contradiction

theorem of_map_eq_error {α β : Type} {result : Except Malformation α} {change : α → β}
    {fault : Malformation} (h : result.map change = .error fault) : result = .error fault := by
  cases result with
  | ok a => contradiction
  | error other => rw [Except.error.inj h]

/-- The characters that belong to a delimited literal after the first one are all but that one. -/
theorem delimited_of_tail {delimiter : Char} {rest : List Char} {n : Nat}
    (h : (delimited (delimiter :: rest)).map (fun (_, m) => m - 1) = .ok n) :
    ∃ text, delimited (delimiter :: rest) = .ok (text, n + 1) := by
  obtain ⟨⟨text, m⟩, hdelimited, hm : m - 1 = n⟩ := of_map_eq_ok h
  have hbounds := delimited_bounds hdelimited
  obtain rfl : m = n + 1 := by omega
  exact ⟨text, hdelimited⟩

/-- A parenthesis that balances the first one stands in the text. -/
theorem parenClose_le {first : Char} {rest : List Char} {n : Nat}
    (h : parenClose (first :: rest) = .ok n) : n ≤ rest.length := by
  unfold parenClose at h
  split at h
  · rename_i m hm
    have := closingParen_lt _ _ hm
    simp only [Except.ok.injEq, List.length_cons] at h this
    omega
  · simp at h

/-- A unit that can be read ends within the text. -/
theorem unitTail_le {first : Char} {rest : List Char} {tail : Nat}
    (h : unitTail first rest = .ok tail) : tail ≤ rest.length := by
  have run_le (p : Char → Bool) : (rest.takeWhile p).length ≤ rest.length :=
    (List.takeWhile_sublist p).length_le
  unfold unitTail at h
  split_ifs at h
  · cases rest with
    | nil => simp [character, Except.map] at h
    | cons c rest => simp [character, Except.map] at h; simp [← h]
  · obtain ⟨text, hdelimited⟩ := delimited_of_tail h
    have := delimited_bounds hdelimited
    omega
  · exact parenClose_le h
  · obtain rfl : digitRun rest = tail := by simpa using h
    exact run_le _
  · obtain rfl : nameRun rest = tail := by simpa using h
    exact run_le _
  · simp only [Except.ok.injEq] at h
    omega

/-- Whether a unit that starts with `first` moves about in the text: a brace or a loop exit. -/
def IsControl (first : Char) : Prop :=
  first = '{' ∨ first = '}' ∨ first = '!'

/-- Braces and loop exits are units of one character. -/
theorem unitTail_control {first : Char} (h : IsControl first) (rest : List Char) :
    unitTail first rest = .ok 0 := by
  rcases h with rfl | rfl | rfl <;> rfl

theorem drop_of_getElem? {text : List Char} {p : Nat} {c : Char} (h : text[p]? = some c) :
    text.drop p = c :: text.drop (p + 1) := by
  obtain ⟨hlt, hget⟩ := List.getElem?_eq_some_iff.mp h
  rw [List.drop_eq_getElem_cons hlt, hget]

theorem getElem?_of_drop_eq_cons {text rest : List Char} {p : Nat} {c : Char}
    (h : text.drop p = c :: rest) : text[p]? = some c := by
  rw [← List.head?_drop, h, List.head?_cons]

theorem leaveRun_cons (c : Char) (rest : List Char) :
    leaveRun (c :: rest) = if c = '!' then leaveRun rest + 1 else 0 := by
  by_cases hc : c = '!' <;> simp [leaveRun, hc]

/-- A run of loop exits is empty where another character stands or none. -/
theorem getElem?_of_leaveRun_pos {text : List Char} {p : Nat} (h : 0 < leaveRun (text.drop p)) :
    text[p]? = some '!' := by
  rw [← List.head?_drop]
  cases hrest : text.drop p with
  | nil => simp [hrest, leaveRun] at h
  | cons c rest =>
    rw [hrest, leaveRun_cons] at h
    by_cases hc : c = '!'
    · rw [hc, List.head?_cons]
    · simp [hc] at h

namespace UnitAt

variable {text : List Char} {p : Nat} {lexeme : Lexeme}

/-- A unit ends within the text. -/
theorem stop_le (h : UnitAt text p lexeme) : lexeme.stop ≤ text.length := by
  obtain ⟨rest, hrest, htail⟩ := h.read
  have hle := unitTail_le htail
  have hlen := congrArg List.length hrest
  simp only [List.length_drop, List.length_cons] at hlen
  simp only [Lexeme.stop, h.start]
  omega

/-- A unit is not empty. -/
theorem lt_stop (h : UnitAt text p lexeme) : p < lexeme.stop := by
  simp only [Lexeme.stop, h.start]
  omega

/-- A unit starts with the character that stands at its position. -/
theorem getElem? (h : UnitAt text p lexeme) : text[p]? = some lexeme.first := by
  obtain ⟨rest, hrest, -⟩ := h.read
  exact getElem?_of_drop_eq_cons hrest

/-- The text at a position decides which unit starts there. -/
theorem unique {other : Lexeme} (h : UnitAt text p lexeme) (h' : UnitAt text p other) :
    lexeme = other := by
  obtain ⟨rest, hrest, htail⟩ := h.read
  obtain ⟨rest', hrest', htail'⟩ := h'.read
  obtain ⟨hfirst, rfl⟩ := List.cons.inj (hrest.symm.trans hrest')
  rw [hfirst, htail', Except.ok.injEq] at htail
  have hstart : lexeme.start = other.start := h.start.trans h'.start.symm
  cases lexeme
  cases other
  simp_all

/-- A brace or a loop exit is a unit of its own. -/
theorem stop_eq (h : UnitAt text p lexeme) (hc : IsControl lexeme.first) :
    lexeme.stop = p + 1 := by
  obtain ⟨rest, -, htail⟩ := h.read
  rw [unitTail_control hc, Except.ok.injEq] at htail
  rw [Lexeme.stop, ← htail, h.start]

/-- A brace or a loop exit that stands where a unit starts is that unit. -/
theorem of_getElem? {c : Char} (h : text[p]? = some c) (hc : IsControl c) :
    UnitAt text p { start := p, first := c, tail := 0 } :=
  ⟨rfl, text.drop (p + 1), drop_of_getElem? h, unitTail_control hc _⟩

/-- A unit is read at its position, and ends there. -/
theorem unitEnd_eq (h : UnitAt text p lexeme) :
    ∃ hp : p < text.length, unitEnd text ⟨p, hp⟩ = .ok lexeme.stop := by
  have hp := Nat.lt_of_lt_of_le h.lt_stop h.stop_le
  obtain ⟨rest, hrest, htail⟩ := h.read
  obtain ⟨hfirst, rfl⟩ := List.cons.inj ((List.drop_eq_getElem_cons hp).symm.trans hrest)
  rw [← hfirst] at htail
  exact ⟨hp, unitEnd_eq_ok_iff.mpr ⟨lexeme.tail, htail, by rw [Lexeme.stop, h.start]⟩⟩

end UnitAt

/-- What is read at a position is the unit there. -/
theorem exists_unitAt_of_unitEnd {text : List Char} {start : Fin text.length} {stop : Nat}
    (h : unitEnd text start = .ok stop) :
    ∃ lexeme, UnitAt text start lexeme ∧ lexeme.stop = stop := by
  obtain ⟨tail, htail, hstop⟩ := unitEnd_eq_ok_iff.mp h
  exact ⟨{ start, first := text.get start, tail },
    ⟨rfl, _, List.drop_eq_getElem_cons start.isLt, htail⟩, hstop⟩

theorem MisreadAt.unitEnd_eq {text : List Char} {p : Nat} {fault : Malformation}
    (h : MisreadAt text p fault) : ∃ hp : p < text.length,
      unitEnd text ⟨p, hp⟩ = .error (.misread p (.literal fault)) := by
  obtain ⟨first, rest, hrest, htail⟩ := h
  obtain ⟨hp, hget⟩ := List.getElem?_eq_some_iff.mp (getElem?_of_drop_eq_cons hrest)
  obtain ⟨hfirst, rfl⟩ := List.cons.inj ((List.drop_eq_getElem_cons hp).symm.trans hrest)
  rw [← hfirst] at htail
  exact ⟨hp, unitEnd_eq_error_iff.mpr ⟨fault, htail, rfl⟩⟩

/-! ## 2. Sweeps -/

/-- The units follow each other in the text, the first one at position `p` and the last one up to
position `q`. -/
inductive Sweep (text : List Char) : (p : Nat) → List Lexeme → (q : Nat) → Prop where
  | nil (p : Nat) : Sweep text p [] p
  | cons {p q : Nat} {lexeme : Lexeme} {lexemes : List Lexeme} (head : UnitAt text p lexeme)
      (tail : Sweep text lexeme.stop lexemes q) : Sweep text p (lexeme :: lexemes) q

/-- The sweep from the start of the text comes to position `p`; the position of the first unit that
cannot be read is the last one of which that holds. -/
def Boundary (text : List Char) (p : Nat) : Prop :=
  ∃ lexemes, Sweep text 0 lexemes p

/-- The units that can be read from position `p` on. -/
def unitsFrom (text : List Char) (p : Nat) : List Lexeme :=
  (lexFrom p (text.drop p)).lexemes

/-- One turn of the sweep: the text is at its end, or a unit cannot be read, or the sweep goes on
behind the unit. -/
theorem lexFrom_cases (text : List Char) (p : Nat) :
    (text.drop p = [] ∧ lexFrom p (text.drop p) = { lexemes := [], stopped := none }) ∨
    (∃ fault, MisreadAt text p fault ∧
      lexFrom p (text.drop p) = { lexemes := [], stopped := some (p, fault) }) ∨
    (∃ lexeme, UnitAt text p lexeme ∧ lexFrom p (text.drop p) =
      { lexemes := lexeme :: unitsFrom text lexeme.stop
        stopped := (lexFrom lexeme.stop (text.drop lexeme.stop)).stopped }) := by
  cases hrest : text.drop p with
  | nil => exact .inl ⟨rfl, lexFrom_nil p⟩
  | cons first rest =>
    cases htail : unitTail first rest with
    | error fault =>
      exact .inr (.inl ⟨fault, ⟨first, rest, hrest, htail⟩, lexFrom_cons_error htail⟩)
    | ok tail =>
      have hdrop : text.drop (p + 1 + tail) = rest.drop tail := by
        rw [← List.drop_drop, ← List.drop_drop, hrest, List.drop_one, List.tail_cons]
      refine .inr (.inr ⟨{ start := p, first, tail }, ⟨rfl, rest, hrest, htail⟩, ?_⟩)
      rw [lexFrom_cons_ok htail]
      simp only [unitsFrom, Lexeme.stop, hdrop]

/-- Cutting from a unit on answers that unit first. -/
theorem lexFrom_of_unitAt {text : List Char} {p : Nat} {lexeme : Lexeme}
    (h : UnitAt text p lexeme) : lexFrom p (text.drop p) =
      { lexemes := lexeme :: unitsFrom text lexeme.stop
        stopped := (lexFrom lexeme.stop (text.drop lexeme.stop)).stopped } := by
  obtain ⟨rest, hrest, htail⟩ := h.read
  rcases lexFrom_cases text p with ⟨hnil, -⟩ | ⟨fault, ⟨first, rest', hrest', hfault⟩, -⟩ |
    ⟨other, hother, heq⟩
  · simp [hrest] at hnil
  · rw [hrest] at hrest'
    obtain ⟨rfl, rfl⟩ := List.cons.inj hrest'
    simp [htail] at hfault
  · rw [h.unique hother, heq]

theorem unitsFrom_of_unitAt {text : List Char} {p : Nat} {lexeme : Lexeme}
    (h : UnitAt text p lexeme) : unitsFrom text p = lexeme :: unitsFrom text lexeme.stop := by
  rw [unitsFrom, lexFrom_of_unitAt h]

namespace Sweep

variable {text : List Char} {p q : Nat} {lexemes : List Lexeme}

theorem append {r : Nat} {more : List Lexeme} (h : Sweep text p lexemes q)
    (h' : Sweep text q more r) : Sweep text p (lexemes ++ more) r := by
  induction h with
  | nil => exact h'
  | cons head _ ih => exact .cons head (ih h')

/-- A sweep does not go back. -/
theorem le (h : Sweep text p lexemes q) : p ≤ q := by
  induction h with
  | nil => exact Nat.le_refl _
  | cons head _ ih => exact Nat.le_trans (Nat.le_of_lt head.lt_stop) ih

/-- A sweep stays within the text. -/
theorem le_length (h : Sweep text p lexemes q) (hp : p ≤ text.length) : q ≤ text.length := by
  induction h with
  | nil => exact hp
  | cons head _ ih => exact ih head.stop_le

/-- The units of a sweep stand in the text, between its ends. -/
theorem unitAt (h : Sweep text p lexemes q) {lexeme : Lexeme} (hmem : lexeme ∈ lexemes) :
    UnitAt text lexeme.start lexeme ∧ p ≤ lexeme.start ∧ lexeme.stop ≤ q := by
  induction h with
  | nil => simp at hmem
  | @cons p q first rest head tail ih =>
    rcases List.mem_cons.mp hmem with rfl | hmem
    · exact ⟨by rw [head.start]; exact head, Nat.le_of_eq head.start.symm, tail.le⟩
    · obtain ⟨hunit, hle, hstop⟩ := ih hmem
      exact ⟨hunit, Nat.le_trans (Nat.le_of_lt head.lt_stop) hle, hstop⟩

/-- The units of a sweep start one after the other. -/
theorem pairwise_start (h : Sweep text p lexemes q) :
    lexemes.Pairwise (fun a b => a.start < b.start) := by
  induction h with
  | nil => exact .nil
  | cons head tail ih =>
    refine .cons (fun other hother => ?_) ih
    have := (tail.unitAt hother).2.1
    have := head.lt_stop
    rw [head.start]
    omega

end Sweep

/-- Cutting may be taken up again where a sweep comes to. -/
theorem lexFrom_of_sweep {text : List Char} {p q : Nat} {lexemes : List Lexeme}
    (h : Sweep text p lexemes q) : lexFrom p (text.drop p) =
      { lexemes := lexemes ++ unitsFrom text q
        stopped := (lexFrom q (text.drop q)).stopped } := by
  induction h with
  | nil => rfl
  | cons head _ ih => rw [lexFrom_of_unitAt head, unitsFrom, ih, List.cons_append]

theorem unitsFrom_of_sweep {text : List Char} {p q : Nat} {lexemes : List Lexeme}
    (h : Sweep text p lexemes q) : unitsFrom text p = lexemes ++ unitsFrom text q := by
  rw [unitsFrom, lexFrom_of_sweep h]

/-- Cutting answers the units of a sweep. Where that sweep comes to, the text is at its end or a unit
stands that cannot be read, and the answer says which. -/
theorem sweep_lexFrom (text : List Char) (p : Nat) : ∃ q, Sweep text p (unitsFrom text p) q ∧
    (text.drop q = [] ∧ (lexFrom p (text.drop p)).stopped = none ∨
      ∃ fault, MisreadAt text q fault ∧
        (lexFrom p (text.drop p)).stopped = some (q, fault)) := by
  -- every unit takes at least one character of what is left
  induction hn : text.length - p using Nat.strongRecOn generalizing p with
  | _ n ih =>
    rcases lexFrom_cases text p with ⟨hnil, heq⟩ | ⟨fault, hfault, heq⟩ | ⟨lexeme, hunit, heq⟩
    · refine ⟨p, ?_, .inl ⟨hnil, by rw [heq]⟩⟩
      rw [unitsFrom, heq]
      exact .nil p
    · refine ⟨p, ?_, .inr ⟨fault, hfault, by rw [heq]⟩⟩
      rw [unitsFrom, heq]
      exact .nil p
    · have hlt := hunit.lt_stop
      have hle := hunit.stop_le
      obtain ⟨q, hsweep, hend⟩ := ih _ (by omega) lexeme.stop rfl
      refine ⟨q, ?_, by rw [heq]; exact hend⟩
      rw [unitsFrom_of_unitAt hunit]
      exact .cons hunit hsweep

/-- The loop exits of a run are units of the text. -/
theorem sweep_leaveRun (text : List Char) (p : Nat) :
    ∃ lexemes, Sweep text p lexemes (p + leaveRun (text.drop p)) ∧
      ∀ lexeme ∈ lexemes, lexeme.first = '!' := by
  induction hn : leaveRun (text.drop p) generalizing p with
  | zero => exact ⟨[], .nil p, by simp⟩
  | succ n ih =>
    have hget := getElem?_of_leaveRun_pos (by omega : 0 < leaveRun (text.drop p))
    have hrun : leaveRun (text.drop (p + 1)) = n := by
      rw [drop_of_getElem? hget, leaveRun_cons, if_pos rfl] at hn
      omega
    obtain ⟨lexemes, hsweep, hall⟩ := ih (p + 1) hrun
    rw [Nat.add_assoc, Nat.add_comm 1 n] at hsweep
    refine ⟨_, .cons (.of_getElem? hget (.inr (.inr rfl))) hsweep, ?_⟩
    intro lexeme hmem
    rcases List.mem_cons.mp hmem with rfl | hmem
    · rfl
    · exact hall lexeme hmem

/-! ## 3. Boundaries -/

namespace Boundary

variable {text : List Char} {p q : Nat}

theorem zero (text : List Char) : Boundary text 0 := ⟨[], .nil 0⟩

theorem le_length (h : Boundary text p) : p ≤ text.length := by
  obtain ⟨lexemes, hsweep⟩ := h
  exact hsweep.le_length (Nat.zero_le _)

/-- A sweep that starts at a boundary ends at one. -/
theorem sweep {lexemes : List Lexeme} (h : Boundary text p) (hsweep : Sweep text p lexemes q) :
    Boundary text q := by
  obtain ⟨before, hbefore⟩ := h
  exact ⟨before ++ lexemes, hbefore.append hsweep⟩

/-- The end of a unit that starts at a boundary is a boundary. -/
theorem stop {lexeme : Lexeme} (h : Boundary text p) (hunit : UnitAt text p lexeme) :
    Boundary text lexeme.stop :=
  h.sweep (.cons hunit (.nil _))

/-- The unit that a sweep reads first starts where the sweep does, and a later one where an earlier
one ends. -/
theorem of_mem {lexemes : List Lexeme} (h : Boundary text p) (hsweep : Sweep text p lexemes q)
    {lexeme : Lexeme} (hmem : lexeme ∈ lexemes) : Boundary text lexeme.start := by
  induction hsweep with
  | nil => simp at hmem
  | cons head tail ih =>
    rcases List.mem_cons.mp hmem with rfl | hmem
    · rw [head.start]
      exact h
    · exact ih (h.stop head) hmem

end Boundary

end GlyphStack.Program
