import GlyphStack.Machine.Item
import GlyphStack.Proofs.Number.Text
import GlyphStack.Proofs.Number.Whole

/-!
Items by number, in three ways that agree. The slots of an array are what its items stand in, and an
index means one of them or none: this is integer indexing, with `Fin` for a slot, so that no access
can be out of range (section 1). `Machine.Item` finds items with natural numbers that it tests on
use, and does the same (section 2). And where the index and the length of the array are doubles, the
tests and sums are rounded; on arrays of fewer than `2^53` items they find the same slots, however
far away the index is (section 3).
-/

namespace GlyphStack

open Number

/-! ## 1. Slots -/

/-- An index, where not-a-number stands for this whole number. -/
def Number.Truncated.orWhole (n : Int) : Truncated → Truncated
  | .nan => .whole n
  | index => index

/-- The slot that an index means. A negative one counts from the end. -/
def slot? (size : Nat) : Truncated → Option (Fin size)
  | .whole n =>
      if h : 0 ≤ n ∧ n < size then some ⟨n.toNat, by omega⟩
      else if h : -(size : Int) ≤ n ∧ n < 0 then some ⟨(n + size).toNat, by omega⟩
      else none
  | _ => none

/-- The slot that an index means for an assignment. One more slot can be meant, behind the last
item, and one fewer: the slot as far from the end as the array is long. -/
def assignedSlot? (size : Nat) : Truncated → Option (Fin (size + 1))
  | .whole n =>
      if h : 0 ≤ n ∧ n ≤ size then some ⟨n.toNat, by omega⟩
      else if h : -(size : Int) < n ∧ n < 0 then some ⟨(n + size).toNat, by omega⟩
      else none
  | _ => none

/-- The item in the slot of an index, absent if there is none. -/
def itemAt (items : Array Value) (index : Truncated) : Value :=
  (slot? items.size index).elim .absent fun i => items[i.val]

/-- The items without the one in the slot of an index. -/
def withoutItemAt (items : Array Value) (index : Truncated) : Array Value :=
  (slot? items.size index).elim items fun i => items.eraseIdx i.val i.isLt

/-- The items with a value in the slot of an index, on top of them in the slot behind the last. -/
def withItemAt (items : Array Value) (index : Truncated) (v : Value) : Array Value :=
  (assignedSlot? items.size index).elim items fun i =>
    if h : i.val < items.size then items.set i.val v h else items.push v

section Slots

variable {size : Nat} {n : Int} {items : Array Value} {index : Truncated}

theorem itemAt_of_slot? {i : Fin items.size} (h : slot? items.size index = some i) :
    itemAt items index = items[i.val] := by
  rw [itemAt, h, Option.elim_some]

theorem withoutItemAt_of_slot? {i : Fin items.size} (h : slot? items.size index = some i) :
    withoutItemAt items index = items.eraseIdx i.val i.isLt := by
  rw [withoutItemAt, h, Option.elim_some]

/-- The slot behind the last item takes a new one. -/
theorem withItemAt_of_assignedSlot? {i : Fin (items.size + 1)} (v : Value)
    (h : assignedSlot? items.size index = some i) (hbehind : i.val = items.size) :
    withItemAt items index v = items.push v := by
  rw [withItemAt, h, Option.elim_some, dif_neg (by omega)]

theorem map_slot?_whole : (slot? size (.whole n)).map Fin.val =
    if 0 ≤ fromStart size n ∧ fromStart size n < size then some (fromStart size n).toNat
    else none := by
  simp only [slot?, fromStart, apply_dite (Option.map Fin.val), Option.map_some, Option.map_none]
  split_ifs <;> first | rfl | omega

theorem map_assignedSlot?_whole : (assignedSlot? size (.whole n)).map Fin.val =
    if n = size ∨ -(size : Int) < n ∧ n < size then some (fromStart size n).toNat else none := by
  simp only [assignedSlot?, fromStart, apply_dite (Option.map Fin.val), Option.map_some,
    Option.map_none]
  split_ifs <;> first | rfl | omega

example : slot? 3 (.whole (-3)) = some 0 ∧ assignedSlot? 3 (.whole (-3)) = none ∧
    slot? 3 (.whole 3) = none ∧ assignedSlot? 3 (.whole 3) = some 3 ∧
    assignedSlot? 0 (.whole 0) = some 0 := by decide

end Slots

/-! ## 2. Indices that are natural numbers -/

section Items

variable {items : Array Value}

/-- The index that is looked up is that of the slot. -/
theorem itemIndex?_eq_map_slot? (size : Nat) (index : Truncated) :
    itemIndex? size index = (slot? size (index.orWhole 0)).map Fin.val := by
  cases index with
  | nan => exact map_slot?_whole.symm
  | infinite negative => rfl
  | whole n => exact map_slot?_whole.symm

theorem getD_itemIndex? (items : Array Value) (index : Truncated) :
    ((itemIndex? items.size index).bind (items[·]?)).getD .absent =
      itemAt items (index.orWhole 0) := by
  rw [itemIndex?_eq_map_slot?, itemAt]
  cases slot? items.size (index.orWhole 0) with
  | none => rfl
  | some i => simp

theorem removeItem_eq (items : Array Value) (index : Truncated) :
    removeItem items index = withoutItemAt items (index.orWhole 0) := by
  rw [removeItem, itemIndex?_eq_map_slot?, withoutItemAt]
  cases slot? items.size (index.orWhole 0) with
  | none => rfl
  | some i => exact (Array.eraseIdxIfInBounds_eq).trans (dif_pos i.isLt)

/-- An assignment tells the slot behind the last item by its number. -/
theorem withItemAt_eq_elim (items : Array Value) (index : Truncated) (v : Value) :
    withItemAt items index v = ((assignedSlot? items.size index).map Fin.val).elim items
      fun i => if i = items.size then items.push v else items.setIfInBounds i v := by
  rw [withItemAt]
  cases assignedSlot? items.size index with
  | none => rfl
  | some i =>
    show dite _ _ _ = ite (i.val = items.size) _ _
    rcases Nat.lt_succ_iff_lt_or_eq.mp i.isLt with hlt | heq
    · rw [dif_pos hlt, if_neg hlt.ne, Array.setIfInBounds, dif_pos hlt]
    · rw [dif_neg heq.not_lt, if_pos heq]

theorem assignItem_whole (items : Array Value) (n : Int) (v : Value) :
    assignItem items (.whole n) v = withItemAt items (.whole n) v := by
  rw [withItemAt_eq_elim, map_assignedSlot?_whole]
  by_cases hbehind : n = items.size
  · have hplace : (fromStart items.size n).toNat = items.size := by
      rw [hbehind, fromStart, if_neg (by omega), Int.toNat_natCast]
    rw [if_pos (.inl hbehind), assignItem, if_pos hbehind, Option.elim_some, hplace, if_pos rfl]
  · by_cases hwithin : -(items.size : Int) < n ∧ n < items.size
    · have hplace : (fromStart items.size n).toNat ≠ items.size := by
        unfold fromStart
        split <;> omega
      rw [if_pos (.inr hwithin), assignItem, if_neg hbehind, if_pos hwithin, Option.elim_some,
        if_neg hplace]
    · rw [if_neg (not_or.mpr ⟨hbehind, hwithin⟩), assignItem, if_neg hbehind, if_neg hwithin,
        Option.elim_none]

theorem assignItem_eq (items : Array Value) (index : Truncated) (v : Value) :
    assignItem items index v = withItemAt items (index.orWhole items.size) v := by
  cases index with
  | nan => exact (if_pos rfl).symm.trans (assignItem_whole items items.size v)
  | infinite negative => rfl
  | whole n => exact assignItem_whole items n v

end Items

/-! ## 3. Indices that are doubles -/

/-- A double as an index: its whole part, where not-a-number stands for another double. -/
def indexOr (nanAs x : Float) : Float :=
  if isNaN x then nanAs else integral x

/-- The place from the start of an array of a length that an index means, all of them doubles. -/
def placeOf (length index : Float) : Float :=
  if index < zero then index + length else index

/-- A place is in an array of a length. -/
def Within (length place : Float) : Prop :=
  zero ≤ place ∧ place < length

instance (length place : Float) : Decidable (Within length place) :=
  inferInstanceAs (Decidable (_ ∧ _))

/-- The place of the item of an index, if that is in the array. -/
def resolveIndex (index : Float) (size : Nat) : Option Nat :=
  let length := ofCount size
  let place := placeOf length index
  if Within length place then some place.toUInt64.toNat else none

/-- The place that is assigned at an index. The range is tested before the place is known. -/
def resolveAssigned (index : Float) (size : Nat) : Option Nat :=
  let length := ofCount size
  if index == length ∨ (-length < index ∧ index < length) then
    some (placeOf length index).toUInt64.toNat
  else none

section Doubles

variable {index x nanAs : Float} {size : Nat} {n : Int}

theorem isNaN_iff_truncate : isNaN x = true ↔ truncate x = .nan := by
  rw [isNaN_iff_parts, truncate]
  cases parts x <;> simp

/-- The index is what it was truncated to. -/
theorem isTruncated_indexOr (hnan : IsWhole (unpacked nanAs) n) (x : Float) :
    IsTruncated (unpacked (indexOr nanAs x)) ((truncate x).orWhole n) := by
  have hintegral := isTruncated_integral x
  unfold indexOr
  split_ifs with h
  · rw [isNaN_iff_truncate.mp h]
    exact .whole hnan
  · cases htruncate : truncate x with
    | nan => exact absurd (isNaN_iff_truncate.mpr htruncate) h
    | infinite negative => rwa [htruncate] at hintegral
    | whole n => rwa [htruncate] at hintegral

/-- The place of a whole number is one. -/
theorem isWhole_placeOf (hindex : IsWhole (unpacked index) n) (hsize : size < 2 ^ 53) :
    IsWhole (unpacked (placeOf (ofCount size) index)) (fromStart size n) := by
  have hbound := hindex.natAbs_lt
  have hnegative : index < zero ↔ n < 0 :=
    ((IsTruncated.whole hindex).lt_iff_of_whole isWhole_zero).1
  unfold placeOf fromStart
  by_cases h : n < 0
  · rw [if_pos h, if_pos (hnegative.mpr h)]
    exact isWhole_add hindex (isWhole_ofCount hsize) (by omega)
  · rw [if_neg h, if_neg (mt hnegative.mp h)]
    exact hindex

/-- A number that is too large for a whole one is not in the array. -/
theorem not_within_of_large (hindex : IsTruncated (unpacked index) (.whole n))
    (hsize : size < 2 ^ 53) (hn : 2 ^ 53 ≤ n.natAbs) :
    ¬ Within (ofCount size) (placeOf (ofCount size) index) := by
  have hlength := isWhole_ofCount hsize
  have hnegative : index < zero ↔ n < 0 := (hindex.lt_iff_of_whole isWhole_zero).1
  rintro ⟨hge, hlt⟩
  unfold placeOf at hge hlt
  by_cases h : n < 0
  · have hsum : (unpacked zero).compare (unpacked (index + ofCount size)) = some .gt :=
      hindex.add_of_le hlength (by omega)
    rw [if_pos (hnegative.mpr h), le_iff, hsum] at hge
    cases hge
  · rw [if_neg (mt hnegative.mp h)] at hlt
    have hbelow : n < size := (hindex.lt_iff_of_whole hlength).1.mp hlt
    omega

/-- Neither is an infinity. -/
theorem not_within_of_infinite {negative : Bool}
    (hindex : IsTruncated (unpacked index) (.infinite negative)) (hsize : size < 2 ^ 53) :
    ¬ Within (ofCount size) (placeOf (ofCount size) index) := by
  have hlength := isWhole_ofCount hsize
  have hcompare := (hindex.compare_of_infinite isWhole_zero).1
  rintro ⟨hge, hlt⟩
  unfold placeOf at hge hlt
  cases negative
  · rw [if_neg (by rw [lt_iff, hcompare]; decide), lt_iff,
      (hindex.compare_of_infinite hlength).1] at hlt
    cases hlt
  · rw [if_pos (by rw [lt_iff, hcompare]; rfl), le_iff,
      ((hindex.add_of_infinite hlength).compare_of_infinite isWhole_zero).2] at hge
    cases hge

/-- Not-a-number is no place. -/
theorem not_within_of_nan (hindex : IsTruncated (unpacked index) .nan) :
    ¬ Within (ofCount size) (placeOf (ofCount size) index) := by
  have hcompare := hindex.compare_of_nan (unpacked zero)
  rintro ⟨hge, -⟩
  rw [placeOf, if_neg (by rw [lt_iff, hcompare.1]; nofun), le_iff, hcompare.2] at hge
  cases hge

theorem resolveIndex_eq {t : Truncated} (hindex : IsTruncated (unpacked index) t)
    (hsize : size < 2 ^ 53) : resolveIndex index size = (slot? size t).map Fin.val := by
  unfold resolveIndex
  cases t with
  | nan => exact if_neg (not_within_of_nan hindex)
  | infinite negative => exact if_neg (not_within_of_infinite hindex hsize)
  | whole n =>
    rw [map_slot?_whole]
    rcases Nat.lt_or_ge n.natAbs (2 ^ 53) with hn | hn
    · have hplace := isWhole_placeOf (hindex.isWhole hn) hsize
      have hwithin : Within (ofCount size) (placeOf (ofCount size) index) ↔
          0 ≤ fromStart size n ∧ fromStart size n < size :=
        and_congr ((IsTruncated.whole hplace).le_iff_of_whole isWhole_zero)
          ((IsTruncated.whole hplace).lt_iff_of_whole (isWhole_ofCount hsize)).1
      refine (if_congr hwithin rfl rfl).trans (ite_congr rfl (fun h => ?_) fun _ => rfl)
      exact congrArg some (hplace.toNat_toUInt64 h.1)
    · rw [if_neg (not_within_of_large hindex hsize hn)]
      refine (if_neg ?_).symm
      unfold fromStart
      split <;> omega

theorem resolveAssigned_eq {t : Truncated} (hindex : IsTruncated (unpacked index) t)
    (hsize : size < 2 ^ 53) :
    resolveAssigned index size = (assignedSlot? size t).map Fin.val := by
  have hlength := isWhole_ofCount hsize
  have hfirst := isWhole_neg hlength
  unfold resolveAssigned
  cases t with
  | nan =>
    refine if_neg ?_
    have hcompare := hindex.compare_of_nan (unpacked (ofCount size))
    rw [beq_iff, lt_iff (x := index), hcompare.1]
    rintro (h | ⟨-, h⟩) <;> cases h
  | infinite negative =>
    refine if_neg ?_
    have hcompare := hindex.compare_of_infinite hlength
    rw [beq_iff, lt_iff, lt_iff, (hindex.compare_of_infinite hfirst).2, hcompare.1]
    cases negative
    · rintro (h | ⟨-, h⟩) <;> cases h
    · rintro (h | ⟨h, -⟩) <;> cases h
  | whole n =>
    have hassigned : (index == ofCount size) = true ∨ -ofCount size < index ∧ index < ofCount size ↔
        n = size ∨ -(size : Int) < n ∧ n < size :=
      or_congr (hindex.beq_iff_of_whole hlength) <|
        and_congr (hindex.lt_iff_of_whole hfirst).2 (hindex.lt_iff_of_whole hlength).1
    rw [map_assignedSlot?_whole]
    refine (if_congr hassigned rfl rfl).trans (ite_congr rfl (fun h => ?_) fun _ => rfl)
    have hplace := isWhole_placeOf (hindex.isWhole (by omega)) hsize
    refine congrArg some (hplace.toNat_toUInt64 ?_)
    unfold fromStart
    split <;> omega

/-- The index of a double finds its slot, for a lookup and for an assignment. -/
theorem resolveIndex_indexOr (x : Float) (hsize : size < 2 ^ 53) :
    resolveIndex (indexOr zero x) size = (slot? size ((truncate x).orWhole 0)).map Fin.val :=
  resolveIndex_eq (isTruncated_indexOr isWhole_zero x) hsize

theorem resolveAssigned_indexOr (x : Float) (hsize : size < 2 ^ 53) :
    resolveAssigned (indexOr (ofCount size) x) size =
      (assignedSlot? size ((truncate x).orWhole size)).map Fin.val :=
  resolveAssigned_eq (isTruncated_indexOr (isWhole_ofCount hsize) x) hsize

end Doubles

end GlyphStack
