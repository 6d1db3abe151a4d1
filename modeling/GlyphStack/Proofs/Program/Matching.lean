import GlyphStack.Proofs.Program.Sweep

/-!
Loop ends and loop heads belong together in two ways. `loopExit` walks forward from a loop head and
counts how many loops are open; `pairLoops` sweeps the whole text and keeps the open heads on a
stack. Both pair the same braces (`lookup_bodies_iff_loopExit`): the forward walk from behind a head
comes to an end exactly where the table of the text has that end for that head.

The proof compares both on one list of units. While units are read behind a head, the stack of the
sweep is `inner ++ head :: outer`, where `inner` holds the heads read since, and the counter of the
walk is one more than `inner` is long (`mem_pairLoops_iff_loopExit`). What the sweep does before the
head only changes `outer` (`pairLoops_append`). A unit that cannot be read ends both, and it ends
them behind every pair that they found.
-/

namespace GlyphStack.Program

/-! ## 1. Equations of the walk and of the sweep -/

section Equations

variable {lexeme : Lexeme} (rest : List Lexeme)

theorem loopExit_head (depth : Nat) (h : lexeme.first = '{') :
    loopExit depth (lexeme :: rest) = loopExit (depth + 1) rest := by
  rw [loopExit, if_pos h]

theorem loopExit_one_tail (h : lexeme.first = '}') :
    loopExit 1 (lexeme :: rest) = some lexeme.stop := by
  rw [loopExit, if_neg (by rw [h]; decide), if_pos h, if_pos (Nat.le_refl 1)]

theorem loopExit_succ_tail {depth : Nat} (hd : 1 ≤ depth) (h : lexeme.first = '}') :
    loopExit (depth + 1) (lexeme :: rest) = loopExit depth rest := by
  rw [loopExit, if_neg (by rw [h]; decide), if_pos h, if_neg (by omega), Nat.add_sub_cancel]

theorem loopExit_other (depth : Nat) (h : lexeme.first ≠ '{') (h' : lexeme.first ≠ '}') :
    loopExit depth (lexeme :: rest) = loopExit depth rest := by
  rw [loopExit, if_neg h, if_neg h']

theorem pairLoops_head (heads : List Nat) (h : lexeme.first = '{') :
    pairLoops heads (lexeme :: rest) = pairLoops (lexeme.start :: heads) rest := by
  rw [pairLoops.eq_def]
  simp only [if_pos h]

theorem pairLoops_tail_nil (h : lexeme.first = '}') :
    pairLoops [] (lexeme :: rest) = pairLoops [] rest := by
  rw [pairLoops, if_neg (by rw [h]; decide), if_pos h]

theorem pairLoops_tail_cons (head : Nat) (heads : List Nat) (h : lexeme.first = '}') :
    pairLoops (head :: heads) (lexeme :: rest) =
      (lexeme.start, head + 1) :: pairLoops heads rest := by
  rw [pairLoops, if_neg (by rw [h]; decide), if_pos h]

theorem pairLoops_other (heads : List Nat) (h : lexeme.first ≠ '{') (h' : lexeme.first ≠ '}') :
    pairLoops heads (lexeme :: rest) = pairLoops heads rest := by
  rw [pairLoops.eq_def]
  simp only [if_neg h, if_neg h']

end Equations

/-- The loop heads that are open behind the units, innermost first, if `heads` are before them. -/
def openHeads : (heads : List Nat) → List Lexeme → List Nat
  | heads, [] => heads
  | heads, lexeme :: rest =>
      if lexeme.first = '{' then openHeads (lexeme.start :: heads) rest
      else if lexeme.first = '}' then openHeads heads.tail rest
      else openHeads heads rest

theorem openHeads_append (heads : List Nat) (before after : List Lexeme) :
    openHeads heads (before ++ after) = openHeads (openHeads heads before) after := by
  induction before generalizing heads with
  | nil => rfl
  | cons lexeme before ih =>
    simp only [List.cons_append, openHeads]
    split_ifs <;> exact ih _

/-- The sweep may be cut in two; what it carries over are the open heads. -/
theorem pairLoops_append (heads : List Nat) (before after : List Lexeme) :
    pairLoops heads (before ++ after) =
      pairLoops heads before ++ pairLoops (openHeads heads before) after := by
  induction before generalizing heads with
  | nil => simp [pairLoops, openHeads]
  | cons lexeme before ih =>
    by_cases hhead : lexeme.first = '{'
    · simp only [List.cons_append, pairLoops_head _ _ hhead, openHeads, if_pos hhead, ih]
    · by_cases htail : lexeme.first = '}'
      · cases heads with
        | nil => simp [pairLoops_tail_nil _ htail, openHeads, htail, ih]
        | cons head heads => simp [pairLoops_tail_cons _ _ _ htail, openHeads, htail, ih]
      · simp only [List.cons_append, pairLoops_other _ _ hhead htail, openHeads, if_neg hhead,
          if_neg htail, ih]

/-- A head that is open behind the units was open before them or is one of them. -/
theorem mem_openHeads {heads : List Nat} {lexemes : List Lexeme} {p : Nat}
    (h : p ∈ openHeads heads lexemes) : p ∈ heads ∨ ∃ lexeme ∈ lexemes, lexeme.start = p := by
  induction lexemes generalizing heads with
  | nil => exact .inl h
  | cons lexeme rest ih =>
    have later : (∃ other ∈ rest, other.start = p) →
        ∃ other ∈ lexeme :: rest, other.start = p := by
      rintro ⟨other, hmem, hstart⟩
      exact ⟨other, List.mem_cons_of_mem _ hmem, hstart⟩
    rw [openHeads] at h
    split_ifs at h
    · rcases ih h with hmem | hlater
      · rcases List.mem_cons.mp hmem with rfl | hmem
        · exact .inr ⟨lexeme, List.mem_cons_self, rfl⟩
        · exact .inl hmem
      · exact .inr (later hlater)
    · exact (ih h).imp List.mem_of_mem_tail later
    · exact (ih h).imp id later

/-- A pair of the sweep has a loop end of the units, and a head that was open before them or is one
of them. -/
theorem of_mem_pairLoops {heads : List Nat} {lexemes : List Lexeme} {q body : Nat}
    (h : (q, body) ∈ pairLoops heads lexemes) :
    (∃ lexeme ∈ lexemes, lexeme.start = q ∧ lexeme.first = '}') ∧
      ∃ p, body = p + 1 ∧
        (p ∈ heads ∨ ∃ lexeme ∈ lexemes, lexeme.start = p ∧ lexeme.first = '{') := by
  induction lexemes generalizing heads with
  | nil => simp [pairLoops] at h
  | cons lexeme rest ih =>
    -- what holds of the later units with the heads that are open then holds of all units
    have step (heads' : List Nat) (hheads : ∀ p ∈ heads', p ∈ heads ∨
        lexeme.start = p ∧ lexeme.first = '{') (hrest : (q, body) ∈ pairLoops heads' rest) :
        (∃ other ∈ lexeme :: rest, other.start = q ∧ other.first = '}') ∧
          ∃ p, body = p + 1 ∧
            (p ∈ heads ∨ ∃ other ∈ lexeme :: rest, other.start = p ∧ other.first = '{') := by
      obtain ⟨⟨closer, hcloser, hq⟩, p, hp, hopen⟩ := ih hrest
      refine ⟨⟨closer, List.mem_cons_of_mem _ hcloser, hq⟩, p, hp, ?_⟩
      rcases hopen with hopen | ⟨opener, hopener, hstart⟩
      · exact (hheads p hopen).imp id fun h => ⟨lexeme, List.mem_cons_self, h⟩
      · exact .inr ⟨opener, List.mem_cons_of_mem _ hopener, hstart⟩
    by_cases hhead : lexeme.first = '{'
    · rw [pairLoops_head _ _ hhead] at h
      refine step _ (fun p hp => ?_) h
      rcases List.mem_cons.mp hp with rfl | hp
      · exact .inr ⟨rfl, hhead⟩
      · exact .inl hp
    · by_cases htail : lexeme.first = '}'
      · cases heads with
        | nil =>
          rw [pairLoops_tail_nil _ htail] at h
          exact step _ (fun p hp => .inl hp) h
        | cons head heads =>
          rw [pairLoops_tail_cons _ _ _ htail] at h
          rcases List.mem_cons.mp h with heq | h
          · obtain ⟨rfl, rfl⟩ := Prod.mk.inj heq
            exact ⟨⟨lexeme, List.mem_cons_self, rfl, htail⟩, head, rfl, .inl List.mem_cons_self⟩
          · exact step _ (fun p hp => .inl (List.mem_cons_of_mem _ hp)) h
      · rw [pairLoops_other _ _ hhead htail] at h
        exact step _ (fun p hp => .inl hp) h

/-! ## 2. The walk and the sweep pair the same braces -/

/-- Behind the head at `p`, the sweep pairs it with the loop end at which the walk comes out of the
loop. `inner` holds the heads that were read since. -/
theorem mem_pairLoops_iff_loopExit {p q : Nat} {lexemes : List Lexeme}
    (hstart : ∀ lexeme ∈ lexemes, lexeme.start ≠ p)
    (hstop : ∀ lexeme ∈ lexemes, lexeme.first = '}' → lexeme.stop = lexeme.start + 1)
    (inner outer : List Nat) (hinner : p ∉ inner) (houter : p ∉ outer) :
    (q, p + 1) ∈ pairLoops (inner ++ p :: outer) lexemes ↔
      loopExit (inner.length + 1) lexemes = some (q + 1) := by
  induction lexemes generalizing inner with
  | nil => simp [pairLoops, loopExit]
  | cons lexeme rest ih =>
    have hne : lexeme.start ≠ p := hstart lexeme List.mem_cons_self
    have hstart' : ∀ other ∈ rest, other.start ≠ p :=
      fun other h => hstart other (List.mem_cons_of_mem _ h)
    have ih := ih hstart' fun other h => hstop other (List.mem_cons_of_mem _ h)
    by_cases hhead : lexeme.first = '{'
    · rw [pairLoops_head _ _ hhead, loopExit_head _ _ hhead]
      exact ih (lexeme.start :: inner) (by simp [hinner, Ne.symm hne])
    · by_cases htail : lexeme.first = '}'
      · cases inner with
        | nil =>
          -- the sweep pairs this end with `p`, and never pairs `p` again
          have hlast : (q, p + 1) ∉ pairLoops outer rest := by
            intro hmem
            obtain ⟨-, p', hp', hopen⟩ := of_mem_pairLoops hmem
            obtain rfl : p = p' := by omega
            rcases hopen with hopen | ⟨other, hother, hother', -⟩
            · exact houter hopen
            · exact hstart' other hother hother'
          have hstop := hstop lexeme List.mem_cons_self htail
          rw [List.nil_append, pairLoops_tail_cons _ _ _ htail, List.length_nil, Nat.zero_add,
            loopExit_one_tail _ htail, hstop]
          simp only [List.mem_cons, Prod.mk.injEq, and_true, hlast, or_false, Option.some.injEq]
          omega
        | cons head inner =>
          have hhead' : p ≠ head := fun h => hinner (by simp [h])
          rw [List.cons_append, pairLoops_tail_cons _ _ _ htail, List.length_cons,
            loopExit_succ_tail _ (by omega) htail,
            ← ih inner fun h => hinner (List.mem_cons_of_mem _ h)]
          simp [hhead']
      · rw [pairLoops_other _ _ hhead htail, loopExit_other _ _ hhead htail]
        exact ih inner hinner

/-- The loop ends in the pairs of a sweep come in the order of the units. -/
theorem map_fst_pairLoops_sublist (heads : List Nat) (lexemes : List Lexeme) :
    ((pairLoops heads lexemes).map Prod.fst).Sublist (lexemes.map Lexeme.start) := by
  induction lexemes generalizing heads with
  | nil => simp [pairLoops]
  | cons lexeme rest ih =>
    rw [List.map_cons]
    by_cases hhead : lexeme.first = '{'
    · rw [pairLoops_head _ _ hhead]
      exact (ih _).cons _
    · by_cases htail : lexeme.first = '}'
      · cases heads with
        | nil =>
          rw [pairLoops_tail_nil _ htail]
          exact (ih _).cons _
        | cons head heads =>
          rw [pairLoops_tail_cons _ _ _ htail, List.map_cons]
          exact (ih _).cons_cons _
      · rw [pairLoops_other _ _ hhead htail]
        exact (ih _).cons _

/-- Where each key occurs once, a pair of the list is what its key finds. -/
theorem lookup_eq_some_iff_mem {pairs : List (Nat × Nat)} (h : (pairs.map Prod.fst).Nodup)
    {key value : Nat} : pairs.lookup key = some value ↔ (key, value) ∈ pairs := by
  induction pairs with
  | nil => simp
  | cons pair rest ih =>
    obtain ⟨first, second⟩ := pair
    obtain ⟨hnot, hrest⟩ := List.nodup_cons.mp h
    by_cases hkey : key = first
    · subst hkey
      have hlater : (key, value) ∉ rest := fun hmem => hnot (List.mem_map.mpr ⟨_, hmem, rfl⟩)
      simp [hlater, eq_comm]
    · have hkey' : (key == first) = false := by simpa using hkey
      simp [List.lookup_cons, hkey, hkey', ih hrest]

/-! ## 3. Loops of a text -/

variable {text : List Char} {p q : Nat}

theorem bodies_ofText (text : List Char) :
    (LoopTable.ofText text).bodies = pairLoops [] (unitsFrom text 0) := rfl

/-- What the table finds for a loop end is what the sweep of the text pairs with it. -/
theorem lookup_bodies_eq_some_iff {body : Nat} :
    (LoopTable.ofText text).bodies.lookup q = some body ↔
      (q, body) ∈ pairLoops [] (unitsFrom text 0) := by
  rw [bodies_ofText]
  obtain ⟨stop, hsweep, -⟩ := sweep_lexFrom text 0
  have hstarts : ((unitsFrom text 0).map Lexeme.start).Nodup :=
    List.pairwise_map.mpr (hsweep.pairwise_start.imp Nat.ne_of_lt)
  exact lookup_eq_some_iff_mem ((map_fst_pairLoops_sublist [] _).nodup hstarts)

/-- The way out of at least one loop is where the walk over the units comes out. -/
theorem exitFrom_eq_ok_iff {start depth target : Nat} (hd : 1 ≤ depth) :
    exitFrom text start depth = .ok target ↔
      loopExit depth (unitsFrom text start) = some target := by
  have hd : depth ≠ 0 := by omega
  rw [exitFrom, if_neg hd, unitsFrom]
  dsimp only
  cases loopExit depth (lexFrom start (text.drop start)).lexemes with
  | some position => simp
  | none => cases (lexFrom start (text.drop start)).stopped <;> simp

/-- At a boundary the way back to the body of a loop hangs on the table alone: a unit that cannot be
read stands at or behind the boundary. -/
theorem bodyStart_of_boundary (hq : Boundary text q) :
    (LoopTable.ofText text).bodyStart q =
      match (LoopTable.ofText text).bodies.lookup q with
      | some body => .ok body
      | none => .error (.misread q .noLoopHead) := by
  obtain ⟨before, hbefore⟩ := hq
  obtain ⟨stop, hsweep, hend⟩ := sweep_lexFrom text q
  have hstopped : (LoopTable.ofText text).stopped = (lexFrom q (text.drop q)).stopped := by
    show (lexFrom 0 (text.drop 0)).stopped = _
    rw [lexFrom_of_sweep hbefore]
  have hle := hsweep.le
  unfold LoopTable.bodyStart
  rw [hstopped]
  rcases hend with ⟨-, hnone⟩ | ⟨fault, -, hsome⟩
  · rw [hnone]
    cases (LoopTable.ofText text).bodies.lookup q <;> rfl
  · rw [hsome]
    simp only [if_neg (show ¬ stop < q by omega)]
    cases (LoopTable.ofText text).bodies.lookup q <;> rfl

/-- For a loop head at a boundary, the table has the loop end at which the walk comes out. -/
theorem lookup_bodies_iff_loopExit (hp : Boundary text p) (hhead : text[p]? = some '{') :
    (LoopTable.ofText text).bodies.lookup q = some (p + 1) ↔
      loopExit 1 (unitsFrom text (p + 1)) = some (q + 1) := by
  obtain ⟨before, hbefore⟩ := hp
  have hunit := UnitAt.of_getElem? hhead (.inl rfl)
  have hearlier : ∀ lexeme ∈ before, lexeme.start ≠ p := by
    intro lexeme hmem
    have hlt := (hbefore.unitAt hmem).1.lt_stop
    have hle := (hbefore.unitAt hmem).2.2
    omega
  obtain ⟨stop, hafter, -⟩ := sweep_lexFrom text (p + 1)
  have hlater : ∀ lexeme ∈ unitsFrom text (p + 1), lexeme.start ≠ p := by
    intro lexeme hmem
    have hle := (hafter.unitAt hmem).2.1
    omega
  have hstop : ∀ lexeme ∈ unitsFrom text (p + 1), lexeme.first = '}' →
      lexeme.stop = lexeme.start + 1 :=
    fun lexeme hmem h => (hafter.unitAt hmem).1.stop_eq (.inr (.inl h))
  have hopen : p ∉ openHeads [] before := by
    intro hmem
    rcases mem_openHeads hmem with hmem | ⟨lexeme, hmem, hstart⟩
    · simp at hmem
    · exact hearlier lexeme hmem hstart
  -- before `p` the sweep has not met `p` yet
  have hnot : (q, p + 1) ∉ pairLoops [] before := by
    intro hmem
    obtain ⟨-, p', hp', hmem | ⟨lexeme, hmem, hstart, -⟩⟩ := of_mem_pairLoops hmem
    · simp at hmem
    · exact hearlier lexeme hmem (by omega)
  rw [lookup_bodies_eq_some_iff, unitsFrom_of_sweep hbefore, unitsFrom_of_unitAt hunit,
    pairLoops_append, List.mem_append, pairLoops_head _ _ rfl]
  simp only [hnot, false_or]
  exact mem_pairLoops_iff_loopExit hlater hstop [] _ (by simp) hopen

/-- A pair of the table has braces that are units of the text. -/
theorem of_lookup_bodies {body : Nat}
    (h : (LoopTable.ofText text).bodies.lookup q = some body) :
    Boundary text q ∧ text[q]? = some '}' ∧
      ∃ p, body = p + 1 ∧ Boundary text p ∧ text[p]? = some '{' := by
  obtain ⟨stop, hsweep, -⟩ := sweep_lexFrom text 0
  obtain ⟨⟨closer, hcloser, rfl, hclose⟩, p, rfl, hopen⟩ :=
    of_mem_pairLoops (lookup_bodies_eq_some_iff.mp h)
  refine ⟨(Boundary.zero text).of_mem hsweep hcloser,
    by rw [(hsweep.unitAt hcloser).1.getElem?, hclose], p, rfl, ?_⟩
  rcases hopen with hopen | ⟨opener, hopener, rfl, hfirst⟩
  · simp at hopen
  · exact ⟨(Boundary.zero text).of_mem hsweep hopener,
      by rw [(hsweep.unitAt hopener).1.getElem?, hfirst]⟩

/-- The loop head at `p` and the loop end at `q` belong together: the head is a unit of the text, and
the walk from behind it comes out behind the end. -/
structure IsLoop (text : List Char) (p q : Nat) : Prop where
  boundary : Boundary text p
  head : text[p]? = some '{'
  exit : exitFrom text (p + 1) 1 = .ok (q + 1)

/-- The table has the loops of the text and nothing else. -/
theorem lookup_bodies_iff_isLoop :
    (LoopTable.ofText text).bodies.lookup q = some (p + 1) ↔ IsLoop text p q := by
  constructor
  · intro hfound
    obtain ⟨-, -, p', hp', hp, hhead⟩ := of_lookup_bodies hfound
    obtain rfl : p = p' := by omega
    exact ⟨hp, hhead, (exitFrom_eq_ok_iff (Nat.le_refl 1)).mpr
      ((lookup_bodies_iff_loopExit hp hhead).mp hfound)⟩
  · rintro ⟨hp, hhead, hexit⟩
    exact (lookup_bodies_iff_loopExit hp hhead).mpr ((exitFrom_eq_ok_iff (Nat.le_refl 1)).mp hexit)

theorem IsLoop.bodyStart (h : IsLoop text p q) :
    (LoopTable.ofText text).bodyStart q = .ok (p + 1) := by
  have hfound := lookup_bodies_iff_isLoop.mpr h
  rw [bodyStart_of_boundary (of_lookup_bodies hfound).1, hfound]

/-- The way back from a boundary leads into the loop that ends there, and fails only if no loop
does. -/
theorem bodyStart_cases (hq : Boundary text q) :
    (∃ p, IsLoop text p q ∧ (LoopTable.ofText text).bodyStart q = .ok (p + 1)) ∨
      (∀ p, ¬ IsLoop text p q) ∧
        (LoopTable.ofText text).bodyStart q = .error (.misread q .noLoopHead) := by
  cases hfound : (LoopTable.ofText text).bodies.lookup q with
  | some body =>
    obtain ⟨-, -, p, rfl, -⟩ := of_lookup_bodies hfound
    have hloop := lookup_bodies_iff_isLoop.mp hfound
    exact .inl ⟨p, hloop, hloop.bodyStart⟩
  | none =>
    refine .inr ⟨fun p hloop => ?_, by rw [bodyStart_of_boundary hq, hfound]⟩
    rw [lookup_bodies_iff_isLoop.mpr hloop] at hfound
    contradiction

/-- **The ways in and out of a loop are inverse.** From behind a loop head at a boundary the walk
forward comes out behind position `q` exactly when the table pairs `q` with that head, and then the
way back from `q` leads behind the head. -/
theorem exitFrom_eq_ok_iff_bodies (hp : Boundary text p) :
    (text[p]? = some '{' ∧ exitFrom text (p + 1) 1 = .ok (q + 1) ↔
        (LoopTable.ofText text).bodies.lookup q = some (p + 1)) ∧
      ((LoopTable.ofText text).bodies.lookup q = some (p + 1) →
        (LoopTable.ofText text).bodyStart q = .ok (p + 1)) := by
  rw [lookup_bodies_iff_isLoop]
  refine ⟨⟨?_, fun hloop => ⟨hloop.head, hloop.exit⟩⟩, IsLoop.bodyStart⟩
  rintro ⟨hhead, hexit⟩
  exact ⟨hp, hhead, hexit⟩

/-- The head at 5 and the end at 10 belong together, although a brace of a literal and a loop end
without a head stand before them and a text that is not closed stands behind them. -/
theorem exitFrom_bodyStart_between_literals :
    let text := "(\x7d)'\x7b\x7b\x7ba\x7db\x7d\"\x7d".toList
    Boundary text 5 ∧ (text[5]? = some '{' ∧ exitFrom text 6 1 = .ok 11) ∧
      (LoopTable.ofText text).bodyStart 10 = .ok 6 := by
  intro text
  have hp : Boundary text 5 :=
    ⟨[⟨0, '(', 2⟩, ⟨3, '\'', 1⟩], .cons ⟨rfl, _, rfl, rfl⟩ (.cons ⟨rfl, _, rfl, rfl⟩ (.nil _))⟩
  have hpair : (LoopTable.ofText text).bodies.lookup 10 = some 6 := by decide +kernel
  have hinverse := exitFrom_eq_ok_iff_bodies (q := 10) hp
  exact ⟨hp, hinverse.1.mpr hpair, hinverse.2 hpair⟩

end GlyphStack.Program
