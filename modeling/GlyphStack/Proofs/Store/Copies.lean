import GlyphStack.Store.Dictionary

/-!
What deep copies keep. A deep copy changes a heap in one way only: it adds storages, each after the
ones whose references it holds. So a property of heaps that adding such a storage keeps is kept by
the copy of a value, of a list of values and of a dictionary, and the induction over what is copied
is done here once for all such properties.
-/

namespace GlyphStack

/-! ## 1. How copies are made -/

namespace Heap

variable {heap : Heap} {limit : Nat} {v : Value}

theorem deepCopy_of_kind (h : v.kind ≠ .array) : heap.deepCopy limit v = some (v, heap) := by
  cases v with
  | array => exact absurd rfl h
  | string => cases limit <;> rfl
  | number => cases limit <;> rfl
  | absent => cases limit <;> rfl

theorem deepCopy_succ (heap : Heap) (limit : Nat) (ref : Ref) :
    heap.deepCopy (limit + 1) (.array ref) =
      (copyItems (deepCopy limit) heap (heap.read ref).toList).map fun (copies, between) =>
        (.array (between.alloc copies.toArray).1, (between.alloc copies.toArray).2) := by
  rw [deepCopy]
  cases copyItems (deepCopy limit) heap (heap.read ref).toList <;> rfl

theorem copyItems_cons (copyItem : Heap → Value → Option (Value × Heap)) (heap : Heap) (v : Value)
    (vs : List Value) :
    copyItems copyItem heap (v :: vs) = (copyItem heap v).bind fun (copy, between) =>
      (copyItems copyItem between vs).map fun (copies, after) => (copy :: copies, after) := by
  rw [copyItems]
  cases copyItem heap v with
  | none => rfl
  | some result =>
    obtain ⟨copy, between⟩ := result
    show (copyItems copyItem between vs >>= _) = Option.map _ _
    cases copyItems copyItem between vs <;> rfl

end Heap

namespace Dictionary

theorem copyEntries_cons (limit : Nat) (heap : Heap) (entry : String × Value)
    (rest : List (String × Value)) :
    copyEntries limit heap (entry :: rest) = (heap.deepCopy limit entry.2).bind fun (copy, between) =>
      (copyEntries limit between rest).map fun (copies, after) =>
        ((entry.1, copy) :: copies, after) := by
  obtain ⟨name, v⟩ := entry
  rw [copyEntries]
  cases heap.deepCopy limit v with
  | none => rfl
  | some result =>
    obtain ⟨copy, between⟩ := result
    show (copyEntries limit between rest >>= _) = Option.map _ _
    cases copyEntries limit between rest <;> rfl

/-- Entries are copied by copying their values, one after the other. -/
theorem copyEntries_eq (limit : Nat) (heap : Heap) (entries : List (String × Value)) :
    copyEntries limit heap entries =
      (Heap.copyItems (Heap.deepCopy limit) heap (entries.map Prod.snd)).map fun (copies, after) =>
        ((entries.map Prod.fst).zip copies, after) := by
  induction entries generalizing heap with
  | nil => rfl
  | cons entry rest ih =>
    rw [copyEntries_cons, List.map_cons, List.map_cons, Heap.copyItems_cons]
    cases heap.deepCopy limit entry.2 with
    | none => rfl
    | some result =>
      simp only [Option.bind_some, ih, Option.map_map]
      rfl

/-- A dictionary without arrays is its own snapshot. -/
theorem snapshot_of_kind {bindings : Dictionary} {limit : Nat} {heap : Heap}
    (h : ∀ entry ∈ bindings.entries, entry.2.kind ≠ .array) :
    bindings.snapshot limit heap = .ok (bindings, heap) := by
  obtain ⟨entries⟩ := bindings
  have hcopies : copyEntries limit heap entries = some (entries, heap) := by
    induction entries with
    | nil => rfl
    | cons entry rest ih =>
      obtain ⟨hentry, hrest⟩ := List.forall_mem_cons.mp h
      rw [copyEntries_cons, Heap.deepCopy_of_kind hentry, Option.bind_some]
      dsimp only
      rw [ih hrest, Option.map_some]
  rw [snapshot, hcopies]

end Dictionary

/-! ## 2. What is kept -/

namespace Heap

/-- Adding a storage of `fine` values keeps a heap `good`, and the reference to it is `fine` then. -/
structure Copying (good : Heap → Prop) (fine : Heap → Value → Prop) : Prop where
  plain : ∀ {heap : Heap} {v : Value}, v.kind ≠ .array → fine heap v
  mono : ∀ {heap after : Heap} {v : Value}, heap.size ≤ after.size → fine heap v → fine after v
  alloc : ∀ {heap : Heap} {items : Array Value}, good heap → (∀ v ∈ items, fine heap v) →
    good (heap.alloc items).2 ∧ fine (heap.alloc items).2 (.array (heap.alloc items).1)

namespace Copying

variable {good : Heap → Prop} {fine : Heap → Value → Prop} {heap after : Heap}

/-- Items are copied one after the other, and the copies made first stay fine. -/
theorem copyItems (hcopying : Copying good fine)
    {copyItem : Heap → Value → Option (Value × Heap)}
    (hcopy : ∀ {heap after : Heap} {v copy : Value}, good heap →
      copyItem heap v = some (copy, after) →
      heap.size ≤ after.size ∧ good after ∧ fine after copy)
    (h : good heap) {vs copies : List Value}
    (hcopies : Heap.copyItems copyItem heap vs = some (copies, after)) :
    heap.size ≤ after.size ∧ good after ∧ ∀ copy ∈ copies, fine after copy := by
  induction vs generalizing heap copies after with
  | nil =>
    cases hcopies
    exact ⟨Nat.le_refl _, h, by simp⟩
  | cons v vs ih =>
    rw [copyItems_cons, Option.bind_eq_some_iff] at hcopies
    obtain ⟨⟨copy, between⟩, hitem, hrest⟩ := hcopies
    obtain ⟨⟨others, last⟩, hitems, hresult⟩ := Option.map_eq_some_iff.mp hrest
    cases hresult
    obtain ⟨hsize, hbetween, hfine⟩ := hcopy h hitem
    obtain ⟨hsize', hlast, hothers⟩ := ih hbetween hitems
    refine ⟨Nat.le_trans hsize hsize', hlast, List.forall_mem_cons.mpr ⟨?_, hothers⟩⟩
    exact hcopying.mono hsize' hfine

theorem deepCopy (hcopying : Copying good fine) (h : good heap) {limit : Nat} {v copy : Value}
    (hcopy : heap.deepCopy limit v = some (copy, after)) :
    heap.size ≤ after.size ∧ good after ∧ fine after copy := by
  have hplain {heap after : Heap} {limit : Nat} {v copy : Value} (h : good heap)
      (hkind : v.kind ≠ .array) (hcopy : heap.deepCopy limit v = some (copy, after)) :
      heap.size ≤ after.size ∧ good after ∧ fine after copy := by
    rw [deepCopy_of_kind hkind] at hcopy
    cases hcopy
    exact ⟨Nat.le_refl _, h, hcopying.plain hkind⟩
  induction limit generalizing heap v copy after with
  | zero =>
    rcases v.array_or_kind_ne with ⟨ref, rfl⟩ | hkind
    · cases hcopy
    · exact hplain h hkind hcopy
  | succ limit ih =>
    rcases v.array_or_kind_ne with ⟨ref, rfl⟩ | hkind
    · rw [deepCopy_succ] at hcopy
      obtain ⟨⟨items, between⟩, hitems, hresult⟩ := Option.map_eq_some_iff.mp hcopy
      cases hresult
      obtain ⟨hsize, hbetween, hfine⟩ := hcopying.copyItems (fun h hcopy => ih h hcopy) h hitems
      refine ⟨?_, hcopying.alloc hbetween fun v hmem => hfine v (List.mem_toArray.mp hmem)⟩
      rw [size_alloc]
      exact Nat.le_succ_of_le hsize
    · exact hplain h hkind hcopy

theorem copyEntries (hcopying : Copying good fine) (h : good heap) {limit : Nat}
    {entries copies : List (String × Value)}
    (hcopies : Dictionary.copyEntries limit heap entries = some (copies, after)) :
    heap.size ≤ after.size ∧ good after ∧ ∀ entry ∈ copies, fine after entry.2 := by
  rw [Dictionary.copyEntries_eq] at hcopies
  obtain ⟨⟨values, last⟩, hvalues, hresult⟩ := Option.map_eq_some_iff.mp hcopies
  cases hresult
  obtain ⟨hsize, hlast, hfine⟩ :=
    hcopying.copyItems (fun h hcopy => hcopying.deepCopy h hcopy) h hvalues
  exact ⟨hsize, hlast, fun entry hmem => hfine entry.2 (List.of_mem_zip hmem).2⟩

/-- A snapshot of a dictionary keeps what deep copies keep. -/
theorem snapshot (hcopying : Copying good fine) (h : good heap) {limit : Nat}
    {bindings copies : Dictionary} (hsnapshot : bindings.snapshot limit heap = .ok (copies, after)) :
    heap.size ≤ after.size ∧ good after ∧ ∀ entry ∈ copies.entries, fine after entry.2 := by
  unfold Dictionary.snapshot at hsnapshot
  split at hsnapshot
  · rename_i hentries
    cases hsnapshot
    exact hcopying.copyEntries h hentries
  · contradiction

end Copying

end Heap

end GlyphStack
