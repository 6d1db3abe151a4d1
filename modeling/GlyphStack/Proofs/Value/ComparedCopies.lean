import GlyphStack.Proofs.Store.PrivateCopies

/-!
Comparison goes by structure and not by identity. An array that is compared with itself is equal to
itself without a look inside, at the top and at every depth, so which pairs are opened hangs on which
arrays share a storage. But the short way answers what the long one would: every item of the array is
compared with itself in turn, and no value differs from itself, unless a not-a-number occurs in it
(`compareWithin_array`). The other comparisons read off the structure of the values, up to the limit
on nesting, and that is the same where the texts are: as long as no array lies in itself and none too
deep.

So two pairs of values that are built alike, each pair in a heap of its own, compare alike, whatever
they share (`SameStructure.compareWithin_eq`). A value and its deep copy are such a case: a copy
exists only within the limit, and it shares nothing.
-/

namespace GlyphStack.Heap

variable {heap between after other : Heap} {limit depth : Nat} {ref left right : Ref}
  {shape : Shape} {a a' b b' v w : Value}

/-! ## 1. Numbers in values -/

/-- The number occurs in the value: it is the value, or it occurs in an item of that array. -/
inductive Occurs (heap : Heap) (x : Float) : Value → Prop where
  | self : Occurs heap x (.number x)
  | item {ref : Ref} {v : Value} (hitem : v ∈ heap.read ref) (h : Occurs heap x v) :
      Occurs heap x (.array ref)

/-- No number that occurs in the value is not-a-number. -/
def NaNFree (heap : Heap) (v : Value) : Prop :=
  ∀ x, heap.Occurs x v → Number.isNaN x = false

theorem NaNFree.item (h : heap.NaNFree (.array ref)) (hv : v ∈ heap.read ref) : heap.NaNFree v :=
  fun x hx => h x (.item hv hx)

/-- Values of one shape have no place for a not-a-number. -/
theorem HasShape.nanFree (h : heap.HasShape shape v) : heap.NaNFree v := by
  intro x hx
  induction hx generalizing shape with
  | self =>
    cases h with
    | number h => exact h
  | item hitem _ ih =>
    cases h with
    | array h => exact ih (h _ hitem)

/-- In values that are built alike the same numbers occur. -/
theorem SameStructure.occurs {x : Float} (h : SameStructure Eq heap other v w)
    (hx : other.Occurs x w) : heap.Occurs x v := by
  induction hx generalizing v with
  | self =>
    cases h with
    | number h => exact h ▸ .self
  | item hitem _ ih =>
    cases h with
    | array hsize hitems =>
      obtain ⟨i, hi, rfl⟩ := Array.mem_iff_getElem.mp hitem
      exact .item (Array.getElem_mem (hsize ▸ hi)) (ih (hitems i (hsize ▸ hi) hi))

theorem SameStructure.nanFree (h : SameStructure Eq heap other v w) (hv : heap.NaNFree v) :
    other.NaNFree w :=
  fun x hx => hv x (h.occurs hx)

/-! ## 2. The short way for one and the same array -/

/-- A number that is one is equal to itself. -/
theorem order_self {x : Float} (h : Number.isNaN x = false) : Number.order x x = some .eq := by
  simp [Number.order, h, Std.ReflOrd.compare_self]

/-- A value is equal to itself. -/
theorem compareWithin_refl (h : heap.NaNFree v) :
    heap.compareWithin limit depth v v = .ok (some .eq) := by
  cases v with
  | number x =>
    rw [compareWithin_of_isNumeric rfl rfl]
    exact congrArg Except.ok (order_self (h x .self))
  | absent => exact compareWithin_of_isNumeric rfl rfl
  | array ref => exact compareWithin_self ref
  | string text =>
    rw [compareWithin_of_byText ⟨.inl rfl, .inl (by simp [Value.kind])⟩, Std.ReflOrd.compare_self]

theorem compareItems_refl {compareItem : Value → Value → Except Fault (Option Ordering)}
    {vs : List Value} (h : ∀ v ∈ vs, compareItem v v = .ok (some .eq)) :
    compareItems compareItem vs vs = .ok (some .eq) := by
  induction vs with
  | nil => rfl
  | cons v vs ih =>
    rw [List.forall_mem_cons] at h
    rw [compareItems, h.1]
    exact ih h.2

/-- Two arrays compare as their items do, also if they are one array. -/
theorem compareWithin_array (h : heap.NaNFree (.array left)) :
    heap.compareWithin limit (depth + 1) (.array left) (.array right) =
      compareItems (heap.compareWithin limit depth) (heap.read left).toList
        (heap.read right).toList := by
  by_cases hsame : left = right
  · subst hsame
    rw [compareWithin_self, compareItems_refl]
    exact fun v hv => compareWithin_refl (h.item (Array.mem_toList_iff.mp hv))
  · exact compareWithin_succ hsame

/-! ## 3. Values that are built alike -/

theorem SameStructure.isNumeric_eq (h : SameStructure Eq heap other v w) :
    w.isNumeric = v.isNumeric := by
  cases h <;> rfl

theorem ByText.of_sameStructure (ha : SameStructure Eq heap other a a')
    (hb : SameStructure Eq heap other b b') (h : ByText a b) : ByText a' b' where
  numeric := by rw [ha.isNumeric_eq, hb.isNumeric_eq]; exact h.numeric
  array := by rw [ha.kind_eq, hb.kind_eq]; exact h.array

/-- **Values that are built alike compare alike**, whatever storages they share with each other on
either side. -/
theorem SameStructure.compareWithin_eq (ha : SameStructure Eq heap other a a')
    (hb : SameStructure Eq heap other b b') (hnests : heap.NestsWithin depth a)
    (hnests' : heap.NestsWithin depth b) (hdepth : depth ≤ limit) (hnumbers : heap.NaNFree a)
    (hnumbers' : heap.NaNFree b) :
    other.compareWithin limit depth a' b' = heap.compareWithin limit depth a b := by
  induction depth using Nat.strongRecOn generalizing a a' b b' with
  | _ depth ih =>
    rcases compare_cases a b with ⟨hna, hnb⟩ | ⟨left, right, rfl, rfl⟩ | htext
    · rw [compareWithin_of_isNumeric hna hnb,
        compareWithin_of_isNumeric (ha.isNumeric_eq ▸ hna) (hb.isNumeric_eq ▸ hnb),
        ha.toNumber_eq, hb.toNumber_eq]
    · cases depth with
      | zero => exact absurd hnests not_nestsWithin_zero
      | succ depth =>
        have hnumbersOther := ha.nanFree hnumbers
        cases ha with
        | @array _ left' hsize hitems =>
          cases hb with
          | @array _ right' hsize' hitems' =>
            rw [compareWithin_array hnumbers, compareWithin_array hnumbersOther]
            refine compareItems_forall₂ (SameStructure.array_iff.mp (.array hsize hitems))
              (SameStructure.array_iff.mp (.array hsize' hitems')) fun x hx y hy x' y' hxx' hyy' => ?_
            rw [Array.mem_toList_iff] at hx hy
            exact ih depth (Nat.lt_succ_self depth) hxx' hyy' (nestsWithin_succ_iff.mp hnests x hx)
              (nestsWithin_succ_iff.mp hnests' y hy) (Nat.le_of_succ_le hdepth) (hnumbers.item hx)
              (hnumbers'.item hy)
    · have htexts : ∀ x y : Float, x = y → Number.text y = Number.text x :=
        fun _ _ h => congrArg Number.text h.symm
      rw [compareWithin_of_byText htext, compareWithin_of_byText (htext.of_sameStructure ha hb),
        ha.render_eq htexts (hnests.mono hdepth), hb.render_eq htexts (hnests'.mono hdepth)]

/-! ## 4. Copies -/

/-- **Comparison depends on what values are made of, and not on which storages they have.** Two values
without a not-a-number that have deep copies within the limit compare as their copies do, also if they
are one array or share arrays at any depth. The copies have no storage in common, with each other or
with the values, and making them does not change how the values themselves compare. -/
theorem compare_deepCopy (hheap : heap.Closed) (ha : a.Within heap.size) (hb : b.Within heap.size)
    (hcopy : heap.deepCopy limit a = some (a', between))
    (hcopy' : between.deepCopy limit b = some (b', after)) (hnumbers : heap.NaNFree a)
    (hnumbers' : heap.NaNFree b) :
    after.compare limit a' b' = heap.compare limit a b ∧
      after.compare limit a b = heap.compare limit a b := by
  have hcopies : copyItems (deepCopy limit) heap [a, b] = some ([a', b'], after) := by
    simp [copyItems, hcopy, hcopy']
  have hapart := (Apart.refl heap).deepCopy hcopy
  have hnests : heap.NestsWithin limit a :=
    (isSome_deepCopy_iff hheap ha (.refl heap)).mp (by simp [hcopy])
  have hnests' : heap.NestsWithin limit b :=
    (isSome_deepCopy_iff hheap hb hapart).mp (by simp [hcopy'])
  obtain ⟨hsame, hsame'⟩ : SameStructure Eq heap after a a' ∧ SameStructure Eq heap after b b' := by
    simpa using (copiesOf_copyItems hheap (.refl heap) hheap (by simp [ha, hb]) hcopies).same
  refine ⟨hsame.compareWithin_eq hsame' hnests hnests' (Nat.le_refl limit) hnumbers hnumbers', ?_⟩
  exact (hheap.agrees (hapart.deepCopy hcopy')).compare_eq ha hb

/-- `[[1] [1]]` with one array in both places and `[[1] [1]]` with the same array and another one are
equal, and so are their copies, which share nothing. -/
theorem compare_deepCopy_of_shared :
    let one : Value := .number (Number.ofRatio false 1 1)
    let heap : Heap := ⟨#[#[one], #[one], #[.array ⟨0⟩, .array ⟨0⟩], #[.array ⟨0⟩, .array ⟨1⟩]]⟩
    ∃ copy between copy' after, heap.deepCopy 2 (.array ⟨2⟩) = some (copy, between) ∧
      between.deepCopy 2 (.array ⟨3⟩) = some (copy', after) ∧ heap.NaNFree (.array ⟨2⟩) ∧
        heap.NaNFree (.array ⟨3⟩) ∧ after.compare 2 copy copy' = .ok (some .eq) := by
  intro one heap
  have hheap : heap.Closed := closed_of_storages (by decide)
  have hshape : ∀ v ∈ [Value.array ⟨2⟩, .array ⟨3⟩], heap.HasShape (.array (.array .number)) v := by
    decide +kernel
  have hnumbers := (hshape (.array ⟨2⟩) (by simp)).nanFree
  have hnumbers' := (hshape (.array ⟨3⟩) (by simp)).nanFree
  have hcompare : heap.compare 2 (.array ⟨2⟩) (.array ⟨3⟩) = .ok (some .eq) := by decide +kernel
  refine ⟨_, _, _, _, rfl, rfl, hnumbers, hnumbers', ?_⟩
  rw [(compare_deepCopy hheap (by decide) (by decide) rfl rfl hnumbers hnumbers').1, hcompare]

/-- With a not-a-number in it an array is still equal to itself, and not to another one like it. -/
example :
    let heap : Heap := ⟨#[#[.number Number.nan], #[.number Number.nan]]⟩
    heap.compare 1 (.array ⟨0⟩) (.array ⟨0⟩) = .ok (some .eq) ∧
      heap.compare 1 (.array ⟨0⟩) (.array ⟨1⟩) = .ok none := by
  decide +kernel

end GlyphStack.Heap
