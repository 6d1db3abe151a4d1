import Mathlib.Order.Compare
import GlyphStack.Proofs.Value.Reversal

/-!
Comparison on values of one shape. Between values of any kind a comparison need not be transitive:
numbers stand in one order, and against a text they stand in that of their texts. Values of one
shape are numbers, or texts, or arrays whose items have one shape in turn, and between them only one
of the rules applies at every place.

Such a value has a key: a whole number, a text, or the list of the keys of its items
(`Heap.key`). Within the limit on nesting two values compare as their keys do, in the
lexicographic order of lists (`compareWithin_eq_compare_key`). That an array is equal to itself
without a look inside agrees with this, because no item is not-a-number. So a comparison of values of
one shape is a total order by what is known of whole numbers, texts and lists, and two values are
equal in it exactly when they are built alike.
-/

namespace GlyphStack

/-! ## 1. Shapes -/

/-- The shape of a value. -/
inductive Shape where
  | number
  | string
  | array (item : Shape)
deriving DecidableEq, Repr

namespace Heap

variable {heap : Heap} {limit depth : Nat} {shape : Shape} {a b c : Value}

/-- The value has the shape: it is a number, where an absent value counts as one and not-a-number
does not, or a text, or an array whose items all have one shape. -/
inductive HasShape (heap : Heap) : Shape → Value → Prop where
  | number {x : Float} (h : Number.isNaN x = false) : HasShape heap .number (.number x)
  | absent : HasShape heap .number .absent
  | string (text : String) : HasShape heap .string (.string text)
  | array {item : Shape} {ref : Ref} (h : ∀ v ∈ heap.read ref, HasShape heap item v) :
      HasShape heap (.array item) (.array ref)

/-- At most `depth` arrays lie in each other, the value itself included. -/
inductive NestsWithin (heap : Heap) : (depth : Nat) → Value → Prop where
  | plain {depth : Nat} {v : Value} (h : v.kind ≠ .array) : NestsWithin heap depth v
  | array {depth : Nat} {ref : Ref} (h : ∀ v ∈ heap.read ref, NestsWithin heap depth v) :
      NestsWithin heap (depth + 1) (.array ref)

/-- The values are built alike: numbers that are equal, absent values standing for zero; one and the
same text; arrays with as many items, built alike one by one. -/
inductive Alike (heap : Heap) : Value → Value → Prop where
  | number {a b : Value} (ha : a.isNumeric = true) (hb : b.isNumeric = true)
      (h : Number.order (heap.toNumber a) (heap.toNumber b) = some .eq) : Alike heap a b
  | string (text : String) : Alike heap (.string text) (.string text)
  | array {left right : Ref} (hsize : (heap.read left).size = (heap.read right).size)
      (hitems : ∀ i (hi : i < (heap.read left).size) (hi' : i < (heap.read right).size),
        Alike heap (heap.read left)[i] (heap.read right)[i]) :
      Alike heap (.array left) (.array right)

instance decidableHasShape (heap : Heap) :
    (shape : Shape) → (v : Value) → Decidable (heap.HasShape shape v)
  | .number, .number x => decidable_of_iff (Number.isNaN x = false) ⟨.number, fun | .number h => h⟩
  | .number, .absent => isTrue .absent
  | .string, .string text => isTrue (.string text)
  | .array item, .array ref =>
      have := decidableHasShape heap item
      decidable_of_iff (∀ v ∈ heap.read ref, heap.HasShape item v) ⟨.array, fun | .array h => h⟩
  | .number, .string _ | .number, .array _ => isFalse nofun
  | .string, .number _ | .string, .array _ | .string, .absent => isFalse nofun
  | .array _, .string _ | .array _, .number _ | .array _, .absent => isFalse nofun

instance decidableNestsWithin (heap : Heap) :
    (depth : Nat) → (v : Value) → Decidable (heap.NestsWithin depth v)
  | 0, .array _ => isFalse fun | .plain h => h rfl
  | depth + 1, .array ref =>
      have := decidableNestsWithin heap depth
      decidable_of_iff (∀ v ∈ heap.read ref, heap.NestsWithin depth v)
        ⟨.array, fun | .array h => h | .plain h => absurd rfl h⟩
  | _, .string _ | _, .number _ | _, .absent => isTrue (.plain nofun)

end Heap

/-! ## 2. Keys -/

namespace Shape

/-- What the values of a shape are ordered by. -/
def Key : Shape → Type
  | .number => Int
  | .string => String
  | .array item => List item.Key

instance ordKey : (shape : Shape) → Ord shape.Key
  | .number => inferInstanceAs (Ord Int)
  | .string => inferInstanceAs (Ord String)
  | .array item =>
      let _ := ordKey item
      inferInstanceAs (Ord (List item.Key))

instance transOrdKey : (shape : Shape) → Std.TransOrd shape.Key
  | .number => inferInstanceAs (Std.TransOrd Int)
  | .string => inferInstanceAs (Std.TransOrd String)
  | .array item =>
      have := transOrdKey item
      inferInstanceAs (Std.TransOrd (List item.Key))

instance lawfulEqOrdKey : (shape : Shape) → Std.LawfulEqOrd shape.Key
  | .number => inferInstanceAs (Std.LawfulEqOrd Int)
  | .string => inferInstanceAs (Std.LawfulEqOrd String)
  | .array item =>
      have := lawfulEqOrdKey item
      inferInstanceAs (Std.LawfulEqOrd (List item.Key))

end Shape

namespace Heap

variable {heap : Heap} {limit depth : Nat} {shape : Shape} {a b c : Value}

/-- The key of a value of the shape. -/
def key (heap : Heap) : (shape : Shape) → Value → shape.Key
  | .number, v => Number.place (heap.toNumber v)
  | .string, .string text => text
  | .string, _ => ""
  | .array item, .array ref => (heap.read ref).toList.map (heap.key item)
  | .array _, _ => []

/-- Lists whose items compare as their keys do compare as the lists of the keys. -/
theorem compareItems_eq_compare_map {K : Type} [Ord K] {key : Value → K}
    {compareItem : Value → Value → Except Fault (Option Ordering)} {xs ys : List Value}
    (h : ∀ x ∈ xs, ∀ y ∈ ys, compareItem x y = .ok (some (Ord.compare (key x) (key y)))) :
    compareItems compareItem xs ys = .ok (some (Ord.compare (xs.map key) (ys.map key))) := by
  induction xs generalizing ys with
  | nil => cases ys <;> rfl
  | cons x xs ih =>
    cases ys with
    | nil => rfl
    | cons y ys =>
      have ih := ih fun x hx y hy => h x (List.mem_cons_of_mem _ hx) y (List.mem_cons_of_mem _ hy)
      rw [compareItems, h x List.mem_cons_self y List.mem_cons_self, List.map_cons, List.map_cons,
        List.compare_cons_cons]
      cases Ord.compare (key x) (key y) with
      | lt => rfl
      | eq => exact ih
      | gt => rfl

theorem HasShape.isNumeric (h : heap.HasShape .number a) : a.isNumeric = true := by
  cases h <;> rfl

theorem HasShape.isNaN_toNumber (h : heap.HasShape .number a) :
    Number.isNaN (heap.toNumber a) = false := by
  cases h with
  | number h => exact h
  | absent => rfl

/-- Numbers compare as their places among all doubles do. -/
theorem HasShape.order_eq (ha : heap.HasShape .number a) (hb : heap.HasShape .number b) :
    Number.order (heap.toNumber a) (heap.toNumber b) =
      some (Ord.compare (heap.key .number a) (heap.key .number b)) := by
  rw [Number.order, ha.isNaN_toNumber, hb.isNaN_toNumber]
  rfl

/-- **Values of one shape compare as their keys do.** Within the limit on nesting the comparison does
not fail either. -/
theorem compareWithin_eq_compare_key (ha : heap.HasShape shape a) (hb : heap.HasShape shape b)
    (hdepth : heap.NestsWithin depth a) (hdepth' : heap.NestsWithin depth b) :
    heap.compareWithin limit depth a b =
      .ok (some (Ord.compare (heap.key shape a) (heap.key shape b))) := by
  induction shape generalizing depth a b with
  | number => rw [compareWithin_of_isNumeric ha.isNumeric hb.isNumeric, ha.order_eq hb]
  | string =>
    cases ha with
    | string text =>
      cases hb with
      | string text' => exact compareWithin_of_byText ⟨.inl rfl, .inl (by simp [Value.kind])⟩
  | array item ih =>
    cases ha with
    | @array _ left hleft =>
      cases hb with
      | @array _ right hright =>
        by_cases hsame : left = right
        · rw [hsame, compareWithin_self, Std.ReflOrd.compare_self]
        · cases hdepth with
          | plain hplain => simp [Value.kind] at hplain
          | @array depth _ hitems =>
            cases hdepth' with
            | plain hplain => simp [Value.kind] at hplain
            | array hitems' =>
              rw [compareWithin_succ hsame]
              refine compareItems_eq_compare_map fun x hx y hy => ?_
              rw [Array.mem_toList_iff] at hx hy
              exact ih (hleft x hx) (hright y hy) (hitems x hx) (hitems' y hy)

/-! ## 3. Equal keys -/

/-- Values of one shape have one key exactly when they are built alike. -/
theorem key_eq_iff_alike (ha : heap.HasShape shape a) (hb : heap.HasShape shape b) :
    heap.key shape a = heap.key shape b ↔ heap.Alike a b := by
  induction shape generalizing a b with
  | number =>
    rw [← Std.LawfulEqOrd.compare_eq_iff_eq, ← Option.some.injEq, ← ha.order_eq hb]
    constructor
    · exact .number ha.isNumeric hb.isNumeric
    · intro halike
      cases halike with
      | number _ _ h => exact h
      | string => cases ha
      | array => cases ha
  | string =>
    cases ha with
    | string text =>
      cases hb with
      | string text' =>
        constructor
        · intro h
          obtain rfl : text = text' := h
          exact .string text
        · intro halike
          cases halike with
          | number ha => simp [Value.isNumeric] at ha
          | string => rfl
  | array item ih =>
    cases ha with
    | @array _ left hleft =>
      cases hb with
      | @array _ right hright =>
        have hkeys : heap.key (.array item) (.array left) = heap.key (.array item) (.array right) ↔
            (heap.read left).toList.map (heap.key item) =
              (heap.read right).toList.map (heap.key item) := Iff.rfl
        have hitem (i : Nat) (hi : i < (heap.read left).size) (hi' : i < (heap.read right).size) :=
          ih (hleft _ (Array.getElem_mem hi)) (hright _ (Array.getElem_mem hi'))
        rw [hkeys]
        constructor
        · intro h
          have hsize : (heap.read left).size = (heap.read right).size := by
            simpa using congrArg List.length h
          refine .array hsize fun i hi hi' => (hitem i hi hi').mp ?_
          simpa [hi, hi'] using congrArg (·[i]?) h
        · intro halike
          cases halike with
          | number ha => simp [Value.isNumeric] at ha
          | array hsize hitems =>
            refine List.ext_getElem (by simpa using hsize) fun i hi hi' => ?_
            simp only [List.length_map, Array.length_toList] at hi hi'
            simpa using (hitem i hi hi').mpr (hitems i hi hi')

/-! ## 4. A total order -/

/-- The value has the shape, and its arrays lie in each other no deeper than the limit. -/
structure Comparable (heap : Heap) (shape : Shape) (limit : Nat) (v : Value) : Prop where
  shape : heap.HasShape shape v
  nests : heap.NestsWithin limit v

/-- The first value compares as less than the second one. -/
def Below (heap : Heap) (limit : Nat) (a b : Value) : Prop :=
  heap.compare limit a b = .ok (some .lt)

instance decidableBelow (heap : Heap) (limit : Nat) (a b : Value) :
    Decidable (heap.Below limit a b) :=
  inferInstanceAs (Decidable (_ = _))

/-- The first value compares as less than the second one, or as equal to it. -/
def AtMost (heap : Heap) (limit : Nat) (a b : Value) : Prop :=
  heap.Below limit a b ∨ heap.compare limit a b = .ok (some .eq)

theorem Comparable.compare_eq (ha : heap.Comparable shape limit a)
    (hb : heap.Comparable shape limit b) : heap.compare limit a b =
      .ok (some (Ord.compare (heap.key shape a) (heap.key shape b))) :=
  compareWithin_eq_compare_key ha.shape hb.shape ha.nests hb.nests

theorem Comparable.below_iff (ha : heap.Comparable shape limit a)
    (hb : heap.Comparable shape limit b) :
    heap.Below limit a b ↔ Ord.compare (heap.key shape a) (heap.key shape b) = .lt := by
  rw [Below, ha.compare_eq hb, Except.ok.injEq, Option.some.injEq]

theorem Comparable.atMost_iff (ha : heap.Comparable shape limit a)
    (hb : heap.Comparable shape limit b) :
    heap.AtMost limit a b ↔ (Ord.compare (heap.key shape a) (heap.key shape b)).isLE = true := by
  rw [AtMost, ha.below_iff hb, ha.compare_eq hb, Except.ok.injEq, Option.some.injEq]
  cases Ord.compare (heap.key shape a) (heap.key shape b) <;> simp

/-- **Comparison is a total order on the values of one shape.** Within the limit on nesting any two
of them compare, and one is at most the other. What is at most a value that is at most a third one is
at most the third one, and less than it if it is less than the second one, or the second one less
than the third. And two of them are equal exactly when they are built alike. -/
theorem compare_total_of_shape (ha : heap.Comparable shape limit a)
    (hb : heap.Comparable shape limit b) (hc : heap.Comparable shape limit c) :
    (∃ order, heap.compare limit a b = .ok (some order)) ∧
      (heap.AtMost limit a b ∨ heap.AtMost limit b a) ∧
      (heap.AtMost limit a b → heap.AtMost limit b c → heap.AtMost limit a c) ∧
      (heap.Below limit a b → heap.AtMost limit b c → heap.Below limit a c) ∧
      (heap.AtMost limit a b → heap.Below limit b c → heap.Below limit a c) ∧
      (heap.compare limit a b = .ok (some .eq) ↔ heap.Alike a b) := by
  refine ⟨⟨_, ha.compare_eq hb⟩, ?_, ?_, ?_, ?_, ?_⟩
  · rw [ha.atMost_iff hb, hb.atMost_iff ha, Std.OrientedOrd.eq_swap (a := heap.key shape b)]
    cases Ord.compare (heap.key shape a) (heap.key shape b) <;> simp
  · rw [ha.atMost_iff hb, hb.atMost_iff hc, ha.atMost_iff hc]
    exact Std.TransCmp.isLE_trans
  · rw [ha.below_iff hb, hb.atMost_iff hc, ha.below_iff hc]
    exact Std.TransCmp.lt_of_lt_of_isLE
  · rw [ha.atMost_iff hb, hb.below_iff hc, ha.below_iff hc]
    exact Std.TransCmp.lt_of_isLE_of_lt
  · rw [ha.compare_eq hb, Except.ok.injEq, Option.some.injEq,
      Std.LawfulEqOrd.compare_eq_iff_eq, key_eq_iff_alike ha.shape hb.shape]

/-- `[[undef 1]]` is less than `[[0 1] []]`, and that less than `[[1]]`. -/
theorem compare_nested_arrays :
    let one : Value := .number (Number.ofRatio false 1 1)
    let heap : Heap := ⟨#[#[.absent, one], #[.number Number.zero, one], #[], #[one],
      #[.array ⟨0⟩], #[.array ⟨1⟩, .array ⟨2⟩], #[.array ⟨3⟩]]⟩
    let shape : Shape := .array (.array .number)
    heap.Comparable shape 2 (.array ⟨4⟩) ∧ heap.Comparable shape 2 (.array ⟨5⟩) ∧
      heap.Comparable shape 2 (.array ⟨6⟩) ∧ heap.Below 2 (.array ⟨4⟩) (.array ⟨6⟩) ∧
        ¬ heap.Alike (.array ⟨4⟩) (.array ⟨6⟩) := by
  intro one heap shape
  have ha : heap.Comparable shape 2 (.array ⟨4⟩) := ⟨by decide +kernel, by decide +kernel⟩
  have hb : heap.Comparable shape 2 (.array ⟨5⟩) := ⟨by decide +kernel, by decide +kernel⟩
  have hc : heap.Comparable shape 2 (.array ⟨6⟩) := ⟨by decide +kernel, by decide +kernel⟩
  have hab : heap.Below 2 (.array ⟨4⟩) (.array ⟨5⟩) := by decide +kernel
  have hbc : heap.Below 2 (.array ⟨5⟩) (.array ⟨6⟩) := by decide +kernel
  obtain ⟨-, -, -, htrans, -, -⟩ := compare_total_of_shape ha hb hc
  have hac := htrans hab (.inl hbc)
  obtain ⟨-, -, -, -, -, halike⟩ := compare_total_of_shape ha hc hb
  refine ⟨ha, hb, hc, hac, fun h => ?_⟩
  have hboth := hac.symm.trans (halike.mpr h)
  simp at hboth

end Heap

end GlyphStack
