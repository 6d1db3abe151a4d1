import GlyphStack.Proofs.Program.Matching

/-!
Program texts as trees. A block is what stands between two braces, or between a brace and an end of
the text: single units, whole runs of loop exits, and loops with a block as their body. `Reads` says
that a block stands in the text from one position to another.

A text that can be read to its end and in which every brace belongs to a loop is exactly one block
(`reads_iff_of_matched`). The block is built from the end of the text: behind a boundary stand some
blocks with loop ends between them (`Levels`), a loop head in front takes two of them into a loop,
and in front of the whole text no loop end is left over.
-/

namespace GlyphStack.Program

/-! ## 1. Blocks -/

/-- A program text, or the body of a loop, as a tree. -/
inductive Block where
  | done
  /-- A unit that is no brace and no loop exit. -/
  | unit (lexeme : Lexeme) (rest : Block)
  /-- A run of loop exits. -/
  | leave (count : Nat) (rest : Block)
  | loop (body rest : Block)

/-- From position `p` to position `q` the text reads as the block. A run of loop exits is taken
whole, and a loop ends where its body does. -/
inductive Reads (text : List Char) : (p : Nat) → Block → (q : Nat) → Prop where
  | done (p : Nat) : Reads text p .done p
  | unit {p q : Nat} {lexeme : Lexeme} {rest : Block} (hunit : UnitAt text p lexeme)
      (hplain : ¬ IsControl lexeme.first) (hrest : Reads text lexeme.stop rest q) :
      Reads text p (.unit lexeme rest) q
  | leave {p q : Nat} {rest : Block} (hrun : 0 < leaveRun (text.drop p))
      (hrest : Reads text (p + leaveRun (text.drop p)) rest q) :
      Reads text p (.leave (leaveRun (text.drop p)) rest) q
  | loop {p e q : Nat} {body rest : Block} (hhead : text[p]? = some '{')
      (hbody : Reads text (p + 1) body e) (htail : text[e]? = some '}')
      (hrest : Reads text (e + 1) rest q) : Reads text p (.loop body rest) q

variable {text : List Char} {p q : Nat}

/-! ## 2. The braces of a block -/

/-- All braces of the units belong together: neither the sweep nor the walk is changed by them. -/
structure Balanced (lexemes : List Lexeme) : Prop where
  heads : ∀ heads, openHeads heads lexemes = heads
  exit : ∀ depth rest, 1 ≤ depth → loopExit depth (lexemes ++ rest) = loopExit depth rest

theorem Balanced.nil : Balanced [] :=
  ⟨fun _ => rfl, fun _ _ _ => rfl⟩

theorem Balanced.cons {lexeme : Lexeme} {lexemes : List Lexeme} (h : lexeme.first ≠ '{')
    (h' : lexeme.first ≠ '}') (hrest : Balanced lexemes) : Balanced (lexeme :: lexemes) := by
  constructor
  · intro heads
    rw [openHeads, if_neg h, if_neg h', hrest.heads]
  · intro depth rest hd
    rw [List.cons_append, loopExit_other _ _ h h', hrest.exit depth rest hd]

theorem Balanced.loop {head tail : Lexeme} {body rest : List Lexeme} (hhead : head.first = '{')
    (htail : tail.first = '}') (hbody : Balanced body) (hrest : Balanced rest) :
    Balanced (head :: (body ++ tail :: rest)) := by
  constructor
  · intro heads
    have htail' : tail.first ≠ '{' := by rw [htail]; decide
    rw [openHeads, if_pos hhead, openHeads_append, hbody.heads, openHeads, if_neg htail',
      if_pos htail, List.tail_cons, hrest.heads]
  · intro depth more hd
    rw [List.cons_append, List.append_assoc, loopExit_head _ _ hhead,
      hbody.exit _ _ (Nat.le_succ_of_le hd), List.cons_append, loopExit_succ_tail _ hd htail,
      hrest.exit _ _ hd]

/-- The units of a block are a sweep, and their braces belong together. -/
theorem Reads.sweep {block : Block} (h : Reads text p block q) :
    ∃ lexemes, Sweep text p lexemes q ∧ Balanced lexemes := by
  induction h with
  | done p => exact ⟨[], .nil p, .nil⟩
  | unit hunit hplain _ ih =>
    obtain ⟨lexemes, hsweep, hbalanced⟩ := ih
    exact ⟨_, .cons hunit hsweep,
      hbalanced.cons (fun h => hplain (.inl h)) fun h => hplain (.inr (.inl h))⟩
  | @leave p q rest _ _ ih =>
    obtain ⟨lexemes, hsweep, hbalanced⟩ := ih
    obtain ⟨exits, hexits, hall⟩ := sweep_leaveRun text p
    refine ⟨exits ++ lexemes, hexits.append hsweep, ?_⟩
    clear hexits
    induction exits with
    | nil => exact hbalanced
    | cons lexeme exits ihe =>
      have hfirst := hall lexeme List.mem_cons_self
      refine .cons (by rw [hfirst]; decide) (by rw [hfirst]; decide) (ihe fun other hmem => ?_)
      exact hall other (List.mem_cons_of_mem _ hmem)
  | loop hhead _ htail _ ihbody ihrest =>
    obtain ⟨body, hbody, hbalanced⟩ := ihbody
    obtain ⟨rest, hrest, hbalanced'⟩ := ihrest
    have hunit := UnitAt.of_getElem? hhead (.inl rfl)
    have hunit' := UnitAt.of_getElem? htail (.inr (.inl rfl))
    exact ⟨_, .cons hunit (hbody.append (.cons hunit' hrest)),
      .loop rfl rfl hbalanced hbalanced'⟩

/-- The way out of the loops around a block is the same from all of its ends. -/
theorem Reads.loopExit_eq {block : Block} (h : Reads text p block q) {depth : Nat}
    (hd : 1 ≤ depth) : loopExit depth (unitsFrom text p) = loopExit depth (unitsFrom text q) := by
  obtain ⟨lexemes, hsweep, hbalanced⟩ := h.sweep
  rw [unitsFrom_of_sweep hsweep, hbalanced.exit _ _ hd]

/-- Where a block ends with a loop end, the way out of one loop leads behind it. -/
theorem Reads.loopExit_one {block : Block} (h : Reads text p block q)
    (htail : text[q]? = some '}') : loopExit 1 (unitsFrom text p) = some (q + 1) := by
  rw [h.loopExit_eq (Nat.le_refl 1),
    unitsFrom_of_unitAt (UnitAt.of_getElem? htail (.inr (.inl rfl))), loopExit_one_tail _ rfl]
  rfl

theorem Reads.boundary {block : Block} (h : Reads text p block q) (hp : Boundary text p) :
    Boundary text q := by
  obtain ⟨lexemes, hsweep, -⟩ := h.sweep
  exact hp.sweep hsweep

theorem Reads.isLoop {e : Nat} {body : Block} (hp : Boundary text p) (hhead : text[p]? = some '{')
    (hbody : Reads text (p + 1) body e) (htail : text[e]? = some '}') : IsLoop text p e :=
  ⟨hp, hhead, (exitFrom_eq_ok_iff (Nat.le_refl 1)).mpr (hbody.loopExit_one htail)⟩

/-! ## 3. A matched text is one block -/

/-- The unit belongs to a loop, if it is a brace. -/
def Matched (text : List Char) (lexeme : Lexeme) : Prop :=
  (lexeme.first = '{' → ∃ q, IsLoop text lexeme.start q) ∧
    (lexeme.first = '}' → ∃ p, IsLoop text p lexeme.start)

/-- Every brace that is a unit of the text belongs to a loop. -/
def AllMatched (text : List Char) : Prop :=
  ∀ lexeme ∈ unitsFrom text 0, Matched text lexeme

/-- Whether all braces are matched can be read off the table of loops. -/
theorem allMatched_iff_bodies : AllMatched text ↔ ∀ lexeme ∈ unitsFrom text 0,
    (lexeme.first = '{' → ∃ pair ∈ (LoopTable.ofText text).bodies, pair.2 = lexeme.start + 1) ∧
      (lexeme.first = '}' → ((LoopTable.ofText text).bodies.lookup lexeme.start).isSome) := by
  refine forall₂_congr fun lexeme _ => and_congr (imp_congr_right fun _ => ?_)
    (imp_congr_right fun _ => ?_)
  · rw [bodies_ofText]
    constructor
    · rintro ⟨q, hloop⟩
      exact ⟨_, lookup_bodies_eq_some_iff.mp (lookup_bodies_iff_isLoop.mpr hloop), rfl⟩
    · rintro ⟨⟨q, body⟩, hmem, hbody⟩
      obtain rfl : body = lexeme.start + 1 := hbody
      exact ⟨q, lookup_bodies_iff_isLoop.mp (lookup_bodies_eq_some_iff.mpr hmem)⟩
  · simp only [← lookup_bodies_iff_isLoop, Option.isSome_iff_exists]
    constructor
    · rintro ⟨p, hfound⟩
      exact ⟨_, hfound⟩
    · rintro ⟨body, hfound⟩
      obtain ⟨-, -, p, rfl, -⟩ := of_lookup_bodies hfound
      exact ⟨p, hfound⟩

instance (text : List Char) : Decidable (AllMatched text) :=
  decidable_of_iff _ allMatched_iff_bodies.symm

/-- From position `p` to the end the text reads as blocks with `n` loop ends between them. -/
inductive Levels (text : List Char) : (p n : Nat) → Prop where
  | last {p : Nat} {block : Block} (h : Reads text p block text.length) : Levels text p 0
  | next {p q n : Nat} {block : Block} (h : Reads text p block q) (htail : text[q]? = some '}')
      (hnext : Levels text (q + 1) n) : Levels text p (n + 1)

/-- What can be put in front of the first block can be put in front of them all. A block ends where
no loop exit stands. -/
theorem Levels.prepend {p' n : Nat} (h : Levels text p' n)
    (hput : ∀ block q, leaveRun (text.drop q) = 0 → Reads text p' block q →
      ∃ more, Reads text p more q) : Levels text p n := by
  cases h with
  | last h =>
    obtain ⟨more, hmore⟩ := hput _ _ (by simp [leaveRun]) h
    exact .last hmore
  | next h htail hnext =>
    obtain ⟨more, hmore⟩ := hput _ _ (by rw [drop_of_getElem? htail, leaveRun_cons]; rfl) h
    exact .next hmore htail hnext

/-- A loop exit in front of a block joins the run at its start, if there is one. -/
theorem Reads.prepend_leave {block : Block} (h : Reads text (p + 1) block q)
    (hexit : text[p]? = some '!') (hq : leaveRun (text.drop q) = 0) :
    ∃ more, Reads text p more q := by
  have hrun : leaveRun (text.drop p) = leaveRun (text.drop (p + 1)) + 1 := by
    rw [drop_of_getElem? hexit, leaveRun_cons, if_pos rfl]
  have alone (hzero : leaveRun (text.drop (p + 1)) = 0) : ∃ more, Reads text p more q := by
    refine ⟨.leave (leaveRun (text.drop p)) block, .leave (by omega) ?_⟩
    rw [hrun, hzero]
    exact h
  cases h with
  | done => exact alone hq
  | unit hunit hplain =>
    obtain ⟨rest, hrest, -⟩ := hunit.read
    refine alone ?_
    rw [hrest, leaveRun_cons, if_neg fun h => hplain (.inr (.inr h))]
  | @leave _ _ rest _ hrest =>
    refine ⟨.leave (leaveRun (text.drop p)) rest, .leave (by omega) ?_⟩
    rw [hrun, Nat.add_comm (leaveRun _), ← Nat.add_assoc]
    exact hrest
  | loop hhead =>
    refine alone ?_
    rw [drop_of_getElem? hhead, leaveRun_cons]
    rfl

/-- Behind every boundary stand blocks, if every loop head from there on has its loop end. -/
theorem levels_of_sweep {lexemes : List Lexeme} (h : Sweep text p lexemes text.length)
    (hheads : ∀ lexeme ∈ lexemes, lexeme.first = '{' →
      loopExit 1 (unitsFrom text (lexeme.start + 1)) ≠ none) : ∃ n, Levels text p n := by
  generalize hq : text.length = q at h
  induction h with
  | nil p =>
    subst hq
    exact ⟨0, .last (.done _)⟩
  | @cons p q lexeme rest hunit _ ih =>
    obtain ⟨n, hlevels⟩ := ih (fun other hmem => hheads other (List.mem_cons_of_mem _ hmem)) hq
    by_cases hplain : IsControl lexeme.first
    · have hstop : lexeme.stop = p + 1 := hunit.stop_eq hplain
      have hget := hunit.getElem?
      rw [hstop] at hlevels
      rcases hplain with hfirst | hfirst | hfirst <;> rw [hfirst] at hget
      · have hexit := hheads lexeme List.mem_cons_self hfirst
        rw [hunit.start] at hexit
        cases hlevels with
        | last h =>
          -- without a loop end behind it the head would have none
          rw [h.loopExit_eq (Nat.le_refl 1)] at hexit
          simp [unitsFrom, loopExit] at hexit
        | next hbody htail hnext =>
          exact ⟨_, hnext.prepend fun block q _ hrest => ⟨_, .loop hget hbody htail hrest⟩⟩
      · exact ⟨_, .next (.done p) hget hlevels⟩
      · exact ⟨n, hlevels.prepend fun block q hq hrest => hrest.prepend_leave hget hq⟩
    · exact ⟨n, hlevels.prepend fun block q _ hrest => ⟨_, .unit hunit hplain hrest⟩⟩

/-- The loop end behind a block at the start of the text belongs to no loop. -/
theorem Reads.not_isLoop {block : Block} (h : Reads text 0 block q)
    (htail : text[q]? = some '}') (p : Nat) : ¬ IsLoop text p q := by
  intro hloop
  obtain ⟨before, hbefore, hbalanced⟩ := h.sweep
  have hunit := UnitAt.of_getElem? htail (.inr (.inl rfl))
  obtain ⟨stop, hafter, -⟩ := sweep_lexFrom text (q + 1)
  have hmem := lookup_bodies_eq_some_iff.mp (lookup_bodies_iff_isLoop.mpr hloop)
  rw [unitsFrom_of_sweep hbefore, unitsFrom_of_unitAt hunit, pairLoops_append, hbalanced.heads,
    pairLoops_tail_nil _ rfl] at hmem
  rcases List.mem_append.mp hmem with hmem | hmem
  · obtain ⟨⟨lexeme, hlexeme, hstart, -⟩, -⟩ := of_mem_pairLoops hmem
    obtain ⟨hunit, -, hle⟩ := hbefore.unitAt hlexeme
    have := hunit.lt_stop
    omega
  · obtain ⟨⟨lexeme, hlexeme, hstart, -⟩, -⟩ := of_mem_pairLoops hmem
    have hle : q + 1 ≤ lexeme.start := (hafter.unitAt hlexeme).2.1
    omega

/-- Where a block ends: at a loop end or at the end of the text. -/
def EndsAt (text : List Char) (q : Nat) : Prop :=
  text[q]? = none ∨ text[q]? = some '}'

/-- A text reads as one block from each position. -/
theorem Reads.unique {block other : Block} {q' : Nat} (h : Reads text p block q)
    (h' : Reads text p other q') (hq : EndsAt text q) (hq' : EndsAt text q') :
    block = other ∧ q = q' := by
  have hend {c : Char} {q : Nat} (hq : EndsAt text q) (hget : text[q]? = some c)
      (hc : c ≠ '}') : False := by
    rcases hq with hq | hq <;> rw [hget] at hq
    · contradiction
    · exact hc (Option.some.inj hq)
  induction h generalizing other q' with
  | done p =>
    cases h' with
    | done => exact ⟨rfl, rfl⟩
    | unit hunit hplain =>
      exact (hend hq hunit.getElem? fun h => hplain (.inr (.inl h))).elim
    | leave hrun => exact (hend hq (getElem?_of_leaveRun_pos hrun) (by decide)).elim
    | loop hhead => exact (hend hq hhead (by decide)).elim
  | unit hunit hplain _ ih =>
    cases h' with
    | done => exact (hend hq' hunit.getElem? fun h => hplain (.inr (.inl h))).elim
    | unit hunit' _ hrest' =>
      obtain rfl := hunit.unique hunit'
      obtain ⟨rfl, rfl⟩ := ih hrest' hq hq'
      exact ⟨rfl, rfl⟩
    | leave hrun =>
      have hfirst := hunit.getElem?.symm.trans (getElem?_of_leaveRun_pos hrun)
      exact absurd (.inr (.inr (Option.some.inj hfirst))) hplain
    | loop hhead =>
      have hfirst := hunit.getElem?.symm.trans hhead
      exact absurd (.inl (Option.some.inj hfirst)) hplain
  | leave hrun _ ih =>
    cases h' with
    | done => exact (hend hq' (getElem?_of_leaveRun_pos hrun) (by decide)).elim
    | unit hunit hplain =>
      have hfirst := hunit.getElem?.symm.trans (getElem?_of_leaveRun_pos hrun)
      exact absurd (.inr (.inr (Option.some.inj hfirst))) hplain
    | leave _ hrest' =>
      obtain ⟨rfl, rfl⟩ := ih hrest' hq hq'
      exact ⟨rfl, rfl⟩
    | loop hhead =>
      have hfirst := (getElem?_of_leaveRun_pos hrun).symm.trans hhead
      simp at hfirst
  | loop hhead _ htail _ ihbody ihrest =>
    cases h' with
    | done => exact (hend hq' hhead (by decide)).elim
    | unit hunit hplain =>
      have hfirst := hunit.getElem?.symm.trans hhead
      exact absurd (.inl (Option.some.inj hfirst)) hplain
    | leave hrun =>
      have hfirst := (getElem?_of_leaveRun_pos hrun).symm.trans hhead
      simp at hfirst
    | loop _ hbody' htail' hrest' =>
      obtain ⟨rfl, rfl⟩ := ihbody hbody' (.inr htail) (.inr htail')
      obtain ⟨rfl, rfl⟩ := ihrest hrest' hq hq'
      exact ⟨rfl, rfl⟩

/-- A text that can be read to its end and whose braces all belong to loops is one block, and no
other. -/
theorem reads_iff_of_matched (hread : (lexFrom 0 text).stopped = none) (hmatched : AllMatched text) :
    ∃ block, ∀ other, Reads text 0 other text.length ↔ other = block := by
  obtain ⟨stop, hsweep, hend⟩ := sweep_lexFrom text 0
  rw [List.drop_zero, hread] at hend
  obtain ⟨hnil, -⟩ | ⟨fault, -, hstopped⟩ := hend
  · obtain rfl : stop = text.length := by
      have hle := hsweep.le_length (Nat.zero_le _)
      have := List.drop_eq_nil_iff.mp hnil
      omega
    obtain ⟨n, hlevels⟩ := levels_of_sweep hsweep fun lexeme hmem hfirst => by
      obtain ⟨q, hloop⟩ := (hmatched lexeme hmem).1 hfirst
      rw [(exitFrom_eq_ok_iff (Nat.le_refl 1)).mp hloop.exit]
      simp
    cases hlevels with
    | @last _ block hblock =>
      refine ⟨block, fun other => ⟨fun hother => ?_, fun h => h ▸ hblock⟩⟩
      have hends : EndsAt text text.length := .inl (by simp)
      exact (hother.unique hblock hends hends).1
    | @next _ q _ block hblock htail =>
      obtain ⟨before, hbefore, -⟩ := hblock.sweep
      have hunit := UnitAt.of_getElem? htail (.inr (.inl rfl))
      have hmem : { start := q, first := '}', tail := 0 } ∈ unitsFrom text 0 := by
        rw [unitsFrom_of_sweep hbefore, unitsFrom_of_unitAt hunit]
        exact List.mem_append_right _ List.mem_cons_self
      obtain ⟨p, hloop⟩ := (hmatched _ hmem).2 rfl
      exact absurd hloop (hblock.not_isLoop htail p)
  · simp at hstopped

end GlyphStack.Program
