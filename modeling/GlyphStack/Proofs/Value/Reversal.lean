import GlyphStack.Value.Compare

/-!
Comparing two values the other way round. Four rules make a comparison: numbers by their order, one
and the same array at once, other arrays item by item up to the first pair that decides, and anything
else by texts. Which rule applies does not hang on which value stands on the left, and neither does
how deep the arrays have been opened when it applies. So the two ways of comparing stop at the same
pair, with the same fault, with no order, or with an order and its reverse (`compareWithin_swap`).

Nothing is asked of the heap: arrays may share storages and lie in themselves. In the latter case the
limit on nesting ends both ways at the same depth.
-/

namespace GlyphStack

/-- The answer of a comparison seen from its other side: an order is reversed, and a fault or the lack
of an order stays what it is. -/
def reversed (answer : Except Fault (Option Ordering)) : Except Fault (Option Ordering) :=
  answer.map (Option.map Ordering.swap)

/-- The order of two doubles, from the other side. -/
theorem Number.order_swap (x y : Float) : order y x = (order x y).map Ordering.swap := by
  unfold order
  rw [Bool.or_comm]
  split
  · rfl
  · rw [Option.map_some, Std.OrientedOrd.eq_swap (a := place y)]

namespace Heap

variable {heap : Heap} {limit depth : Nat} {a b : Value}

/-! ## 1. The four rules -/

theorem compareWithin_of_isNumeric (ha : a.isNumeric = true) (hb : b.isNumeric = true) :
    heap.compareWithin limit depth a b =
      .ok (Number.order (heap.toNumber a) (heap.toNumber b)) := by
  rw [compareWithin.eq_def]
  simp [ha, hb]

theorem compareWithin_self (ref : Ref) :
    heap.compareWithin limit depth (.array ref) (.array ref) = .ok (some .eq) := by
  rw [compareWithin.eq_def]
  simp [Value.isNumeric]

theorem compareWithin_zero {left right : Ref} (h : left ≠ right) :
    heap.compareWithin limit 0 (.array left) (.array right) = .error (.nesting limit) := by
  rw [compareWithin.eq_def]
  simp [Value.isNumeric, h]

theorem compareWithin_succ {left right : Ref} (h : left ≠ right) :
    heap.compareWithin limit (depth + 1) (.array left) (.array right) =
      compareItems (heap.compareWithin limit depth) (heap.read left).toList
        (heap.read right).toList := by
  rw [compareWithin.eq_def]
  simp [Value.isNumeric, h]

/-- Two values of which one is no number, and one is no array, are compared by their texts. -/
structure ByText (a b : Value) : Prop where
  numeric : a.isNumeric = false ∨ b.isNumeric = false
  array : a.kind ≠ .array ∨ b.kind ≠ .array

theorem ByText.symm (h : ByText a b) : ByText b a := ⟨h.numeric.symm, h.array.symm⟩

theorem compareWithin_of_byText (h : ByText a b) :
    heap.compareWithin limit depth a b =
      .ok (some (Ord.compare (heap.render limit a) (heap.render limit b))) := by
  have hnumeric : (a.isNumeric && b.isNumeric) = false := by
    rcases h.numeric with hnumber | hnumber <;> simp [hnumber]
  rw [compareWithin.eq_def]
  simp only [hnumeric, Bool.false_eq_true, if_false]
  split
  · exact absurd h.array (by simp [Value.kind])
  · rfl

/-- There is no other pair of values. -/
theorem compare_cases (a b : Value) :
    (a.isNumeric = true ∧ b.isNumeric = true) ∨
      (∃ left right, a = .array left ∧ b = .array right) ∨ ByText a b := by
  cases a <;> cases b
  case array.array left right => exact .inr (.inl ⟨left, right, rfl, rfl⟩)
  all_goals
    first
      | exact .inl ⟨rfl, rfl⟩
      | exact .inr (.inr ⟨.inl rfl, by simp [Value.kind]⟩)
      | exact .inr (.inr ⟨.inr rfl, by simp [Value.kind]⟩)

/-! ## 2. The other way round -/

/-- If pairs of items can be compared the other way round, so can the lists. -/
theorem compareItems_swap {compareItem : Value → Value → Except Fault (Option Ordering)}
    (h : ∀ x y, compareItem y x = reversed (compareItem x y)) (xs ys : List Value) :
    compareItems compareItem ys xs = reversed (compareItems compareItem xs ys) := by
  induction xs generalizing ys with
  | nil => cases ys <;> rfl
  | cons x xs ih =>
    cases ys with
    | nil => rfl
    | cons y ys =>
      rw [compareItems, compareItems, h x y]
      match compareItem x y with
      | .ok (some .eq) => exact ih ys
      | .ok (some .lt) => rfl
      | .ok (some .gt) => rfl
      | .ok none => rfl
      | .error fault => rfl

/-- What two values compare as is what they compare as the other way round, reversed. -/
theorem compareWithin_swap (heap : Heap) (limit depth : Nat) (a b : Value) :
    heap.compareWithin limit depth b a = reversed (heap.compareWithin limit depth a b) := by
  induction depth using Nat.strongRecOn generalizing a b with
  | _ depth ih =>
    rcases compare_cases a b with ⟨ha, hb⟩ | ⟨left, right, rfl, rfl⟩ | htext
    · rw [compareWithin_of_isNumeric ha hb, compareWithin_of_isNumeric hb ha, Number.order_swap]
      rfl
    · by_cases hsame : left = right
      · rw [hsame, compareWithin_self]
        rfl
      · cases depth with
        | zero =>
          rw [compareWithin_zero hsame, compareWithin_zero (Ne.symm hsame)]
          rfl
        | succ depth =>
          rw [compareWithin_succ hsame, compareWithin_succ (Ne.symm hsame)]
          exact compareItems_swap (ih depth (Nat.lt_succ_self depth)) _ _
    · rw [compareWithin_of_byText htext, compareWithin_of_byText htext.symm,
        Std.OrientedOrd.eq_swap (a := heap.render limit b)]
      rfl

/-! ## 3. Faults -/

/-- The first pair of items that cannot be compared is the fault of the lists. -/
theorem compareItems_cases {compareItem : Value → Value → Except Fault (Option Ordering)}
    {fault : Fault}
    (h : ∀ x y, compareItem x y = .error fault ∨ ∃ answer, compareItem x y = .ok answer)
    (xs ys : List Value) : compareItems compareItem xs ys = .error fault ∨
      ∃ answer, compareItems compareItem xs ys = .ok answer := by
  fun_induction compareItems compareItem xs ys with
  | case1 | case2 | case3 => exact .inr ⟨_, rfl⟩
  | case4 x xs y ys hsame ih => exact ih
  | case5 x xs y ys hother => exact h x y

/-- A comparison fails only because arrays lie too deep in each other. -/
theorem compareWithin_nesting_or_ok (heap : Heap) (limit depth : Nat) (a b : Value) :
    heap.compareWithin limit depth a b = .error (.nesting limit) ∨
      ∃ answer, heap.compareWithin limit depth a b = .ok answer := by
  induction depth using Nat.strongRecOn generalizing a b with
  | _ depth ih =>
    rcases compare_cases a b with ⟨ha, hb⟩ | ⟨left, right, rfl, rfl⟩ | htext
    · exact .inr ⟨_, compareWithin_of_isNumeric ha hb⟩
    · by_cases hsame : left = right
      · rw [hsame]
        exact .inr ⟨_, compareWithin_self right⟩
      · cases depth with
        | zero => exact .inl (compareWithin_zero hsame)
        | succ depth =>
          rw [compareWithin_succ hsame]
          exact compareItems_cases (ih depth (Nat.lt_succ_self depth)) _ _
    · exact .inr ⟨_, compareWithin_of_byText htext⟩

/-- **Comparison is antisymmetric, its failures included.** Either way round two values compare
with the same fault, which is that of the limit on nesting and no other; or both ways they have no
order; or one order is the reverse of the other. An array is equal to itself, whatever is in it. -/
theorem compare_reversed (heap : Heap) (limit : Nat) (a b : Value) :
    (heap.compare limit a b = .error (.nesting limit) ∧
        heap.compare limit b a = .error (.nesting limit) ∨
      heap.compare limit a b = .ok none ∧ heap.compare limit b a = .ok none ∨
      ∃ order, heap.compare limit a b = .ok (some order) ∧
        heap.compare limit b a = .ok (some order.swap)) ∧
      ∀ ref, heap.compare limit (.array ref) (.array ref) = .ok (some .eq) := by
  refine ⟨?_, fun ref => compareWithin_self ref⟩
  have hswap : heap.compare limit b a = reversed (heap.compare limit a b) :=
    compareWithin_swap heap limit limit a b
  rcases compareWithin_nesting_or_ok heap limit limit a b with hfault | ⟨answer, hanswer⟩
  · have hfault' : heap.compare limit a b = .error (.nesting limit) := hfault
    exact .inl ⟨hfault', by rw [hswap, hfault']; rfl⟩
  · have hanswer' : heap.compare limit a b = .ok answer := hanswer
    cases answer with
    | none => exact .inr (.inl ⟨hanswer', by rw [hswap, hanswer']; rfl⟩)
    | some order => exact .inr (.inr ⟨order, hanswer', by rw [hswap, hanswer']; rfl⟩)

/-- Two arrays that lie in themselves cannot be compared, unless an item before that decides. -/
example :
    let heap : Heap := ⟨#[#[.array ⟨0⟩], #[.array ⟨1⟩], #[.absent, .array ⟨2⟩]]⟩
    heap.compare 3 (.array ⟨0⟩) (.array ⟨1⟩) = .error (.nesting 3) ∧
      heap.compare 3 (.array ⟨0⟩) (.array ⟨2⟩) = .ok (some .lt) :=
  ⟨rfl, rfl⟩

end Heap

end GlyphStack
