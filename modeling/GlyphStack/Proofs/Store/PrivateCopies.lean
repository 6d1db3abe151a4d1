import GlyphStack.Proofs.Value.Structure

/-!
Deep copies are private trees. A copy has the structure of the value, but none of its storages: one
comes from it to new storages only, and to each of them on one way only, also where the arrays of the
value are shared. Copies that are made one after the other have no storage in common.

All this holds for one reason. What one comes to from a copy are storages that were added while it was
made, so the storages of two copies lie in two ranges that do not meet, and a later copy adds its own
ones without a change to what lies before. The items of an array are copied one after the other, and
the storage of their copies comes last. So the ways into the copy of an array part at its items, and
those that go through different items never meet again (`unshared_array`).

The values that are copied lie in a host's heap, and the copies are made on a heap that is apart from
it, so that several values of one host can be copied in turn.
-/

namespace GlyphStack.Heap

variable {host heap between after other : Heap} {limit start : Nat} {inside : Ref → Prop}
  {path : List Nat} {target ref : Ref} {v w copy : Value} {vs copies : List Value}

/-! ## 1. Ways through arrays -/

/-- The path leads from the value to the storage; it names the places of the items on the way. -/
inductive Leads (heap : Heap) : Value → (path : List Nat) → Ref → Prop where
  | here (ref : Ref) : Leads heap (.array ref) [] ref
  | item {ref target : Ref} {path : List Nat} {i : Nat} (hi : i < (heap.read ref).size)
      (h : Leads heap (heap.read ref)[i] path target) : Leads heap (.array ref) (i :: path) target

/-- To no storage one comes from the value on two ways. -/
def Unshared (heap : Heap) (v : Value) : Prop :=
  ∀ path path' target, heap.Leads v path target → heap.Leads v path' target → path = path'

/-- To no storage one comes from both values. -/
def Separate (heap : Heap) (v w : Value) : Prop :=
  ∀ target, heap.Reaches v target → ¬ heap.Reaches w target

theorem Leads.reaches (h : heap.Leads v path target) : heap.Reaches v target := by
  induction h with
  | here ref => exact .self ref
  | item hi _ ih => exact .item (Array.getElem_mem hi) ih

theorem Reaches.exists_leads (h : heap.Reaches v target) : ∃ path, heap.Leads v path target := by
  induction h with
  | self ref => exact ⟨[], .here ref⟩
  | item hitem _ ih =>
    obtain ⟨path, hpath⟩ := ih
    obtain ⟨i, hi, rfl⟩ := Array.mem_iff_getElem.mp hitem
    exact ⟨i :: path, .item hi hpath⟩

theorem unshared_of_kind_ne (h : v.kind ≠ .array) : heap.Unshared v := by
  intro path path' target hpath
  cases hpath <;> exact absurd rfl h

/-- One comes to the storages of an array on one way if its items do not lead back to it, and if one
comes to those of each item on one way and to none of them from two items. -/
theorem unshared_array (hback : ∀ item ∈ heap.read ref, ¬ heap.Reaches item ref)
    (hitems : ∀ item ∈ heap.read ref, heap.Unshared item)
    (hseparate : (heap.read ref).toList.Pairwise heap.Separate) : heap.Unshared (.array ref) := by
  have hseparate {i j : Nat} (hi : i < (heap.read ref).size) (hj : j < (heap.read ref).size)
      (hlt : i < j) : heap.Separate (heap.read ref)[i] (heap.read ref)[j] :=
    List.pairwise_iff_getElem.mp hseparate i j hi hj hlt
  intro path path' target hpath hpath'
  cases hpath with
  | here =>
    cases hpath' with
    | here => rfl
    | item hj hpath' => exact absurd hpath'.reaches (hback _ (Array.getElem_mem hj))
  | @item _ _ path i hi hpath =>
    cases hpath' with
    | here => exact absurd hpath.reaches (hback _ (Array.getElem_mem hi))
    | @item _ _ path' j hj hpath' =>
      rcases Nat.lt_trichotomy i j with hlt | rfl | hlt
      · exact absurd hpath'.reaches (hseparate hi hj hlt target hpath.reaches)
      · rw [hitems _ (Array.getElem_mem hi) _ _ _ hpath hpath']
      · exact absurd hpath.reaches (hseparate hj hi hlt target hpath'.reaches)

/-- Where two heaps agree, the same paths lead to the same storages. -/
theorem Agrees.leads (h : Agrees inside heap other) (hv : v.In inside)
    (hpath : other.Leads v path target) : heap.Leads v path target := by
  induction hpath with
  | here ref => exact .here ref
  | @item ref target path i hi _ ih =>
    have hread : other.read ref = heap.read ref := h.read_eq ref (hv ref rfl)
    simp only [hread] at hi ih
    exact .item hi (ih (h.closed ref (hv ref rfl) _ (Array.getElem_mem hi)))

theorem Agrees.reaches (h : Agrees inside heap other) (hv : v.In inside)
    (hreach : other.Reaches v target) : heap.Reaches v target := by
  obtain ⟨path, hpath⟩ := hreach.exists_leads
  exact (h.leads hv hpath).reaches

theorem Agrees.unshared (h : Agrees inside heap other) (hv : v.In inside)
    (hunshared : heap.Unshared v) : other.Unshared v :=
  fun path path' target hpath hpath' =>
    hunshared path path' target (h.leads hv hpath) (h.leads hv hpath')

theorem Agrees.separate (h : Agrees inside heap other) (hv : v.In inside) (hw : w.In inside)
    (hseparate : heap.Separate v w) : other.Separate v w :=
  fun target hreach hreach' => hseparate target (h.reaches hv hreach) (h.reaches hw hreach')

/-- In a closed heap one comes to storages that are there. -/
theorem Closed.lt_size (h : heap.Closed) (hv : v.Within heap.size) (hreach : heap.Reaches v target) :
    target.index < heap.size := by
  induction hreach with
  | self ref => exact hv ref rfl
  | item hitem _ ih => exact ih (h _ _ hitem)

/-- A closed heap agrees on its storages with every heap that is apart from it. -/
theorem Closed.agrees (h : heap.Closed) (hafter : heap.Apart after) :
    Agrees (·.index < heap.size) heap after where
  read_eq ref hlt := hafter.read_eq ref hlt
  closed ref _ v hv := h ref v hv

theorem Closed.agrees_alloc (h : heap.Closed) (items : Array Value) :
    Agrees (·.index < heap.size) heap (heap.alloc items).2 where
  read_eq _ hlt := read_alloc_of_lt items hlt
  closed ref _ v hv := h ref v hv

/-! ## 2. Copies in their ranges -/

/-- The copies, in the heap `after`, have the structure of the values in the host's heap, one by one.
Their storages come after the first `start` ones, each is come to on one way, and no two copies have
one in common. -/
structure CopiesOf (host : Heap) (start : Nat) (after : Heap) (vs copies : List Value) : Prop where
  same : List.Forall₂ (SameStructure Eq host after) vs copies
  new : ∀ copy ∈ copies, ∀ target, after.Reaches copy target → start ≤ target.index
  unshared : ∀ copy ∈ copies, after.Unshared copy
  separate : copies.Pairwise after.Separate

namespace CopiesOf

theorem nil : CopiesOf host start after [] [] :=
  ⟨.nil, by simp, by simp, .nil⟩

/-- A value that is no array is its own copy. -/
theorem plain (h : v.kind ≠ .array) : CopiesOf host start after [v] [v] where
  same := .cons (.of_kind_ne (fun _ => rfl) h) .nil
  new := by
    rintro copy hmem target hreach
    obtain rfl := List.mem_singleton.mp hmem
    cases hreach <;> exact absurd rfl h
  unshared := by
    intro copy hmem
    obtain rfl := List.mem_singleton.mp hmem
    exact unshared_of_kind_ne h
  separate := List.pairwise_singleton _ _

/-- What is copied next has its storages after those of the first copy. -/
theorem cons (hfirst : CopiesOf host start between [v] [copy])
    (hrest : CopiesOf host between.size after vs copies) (hstart : start ≤ between.size)
    (hclosed : between.Closed) (hapart : between.Apart after) (hcopy : copy.Within between.size) :
    CopiesOf host start after (v :: vs) (copy :: copies) := by
  have hagrees := hclosed.agrees hapart
  have hmem : copy ∈ [copy] := List.mem_singleton_self copy
  refine ⟨?_, ?_, ?_, ?_⟩
  · cases hfirst.same with
    | cons hsame => exact .cons (hsame.of_agrees hagrees hcopy) hrest.same
  · rw [List.forall_mem_cons]
    refine ⟨fun target hreach => hfirst.new copy hmem target (hagrees.reaches hcopy hreach), ?_⟩
    exact fun other hother target hreach => Nat.le_trans hstart (hrest.new other hother target hreach)
  · rw [List.forall_mem_cons]
    exact ⟨hagrees.unshared hcopy (hfirst.unshared copy hmem), hrest.unshared⟩
  · refine List.pairwise_cons.mpr ⟨fun other hother target hreach hreach' => ?_, hrest.separate⟩
    have hbelow : target.index < between.size := hclosed.lt_size hcopy (hagrees.reaches hcopy hreach)
    exact absurd hbelow (Nat.not_lt.mpr (hrest.new other hother target hreach'))

/-- A new storage with the copies of an array's items is a copy of the array. -/
theorem array (h : CopiesOf host start between (host.read ref).toList copies)
    (hstart : start ≤ between.size) (hclosed : between.Closed)
    (hcopies : ∀ copy ∈ copies, copy.Within between.size) :
    CopiesOf host start (between.alloc copies.toArray).2 [.array ref]
      [.array (between.alloc copies.toArray).1] := by
  have hagrees := hclosed.agrees_alloc copies.toArray
  have hread := read_alloc_self between copies.toArray
  have hroot : (between.alloc copies.toArray).1.index = between.size := rfl
  generalize (between.alloc copies.toArray).1 = root at *
  generalize (between.alloc copies.toArray).2 = after at *
  have hmem {item : Value} : item ∈ after.read root ↔ item ∈ copies := by rw [hread, List.mem_toArray]
  have hreaches {item : Value} (hitem : item ∈ copies) {target : Ref}
      (hreach : after.Reaches item target) : between.Reaches item target :=
    hagrees.reaches (hcopies item hitem) hreach
  -- the new storage was not there when the items were made, so they do not lead back to it
  have hback : ∀ item ∈ after.read root, ¬ after.Reaches item root := by
    intro item hitem hreach
    have hitem := hmem.mp hitem
    have hlt := hclosed.lt_size (hcopies item hitem) (hreaches hitem hreach)
    exact Nat.lt_irrefl _ (hroot ▸ hlt)
  have hseparate : (after.read root).toList.Pairwise after.Separate := by
    rw [hread]
    exact h.separate.imp_of_mem fun hfirst hsecond hseparate =>
      hagrees.separate (hcopies _ hfirst) (hcopies _ hsecond) hseparate
  refine ⟨.cons (SameStructure.array_iff.mpr ?_) .nil, ?_, ?_, List.pairwise_singleton _ _⟩
  · rw [hread]
    exact SameStructure.forall₂_of_agrees h.same hagrees hcopies
  · intro copy hcopy target hreach
    obtain rfl := List.mem_singleton.mp hcopy
    cases hreach with
    | self => exact hroot ▸ hstart
    | @item _ _ item hitem hreach =>
      have hitem := hmem.mp hitem
      exact h.new item hitem target (hreaches hitem hreach)
  · intro copy hcopy
    obtain rfl := List.mem_singleton.mp hcopy
    refine unshared_array hback (fun item hitem => ?_) hseparate
    have hitem := hmem.mp hitem
    exact hagrees.unshared (hcopies item hitem) (h.unshared item hitem)

end CopiesOf

/-! ## 3. Copying -/

/-- What the copy of a value, or of several, leaves on a closed heap: the storages that were there,
closed, and copies that refer to new storages only. -/
structure Grown (heap after : Heap) (copies : List Value) : Prop where
  apart : heap.Apart after
  closed : after.Closed
  beyond : ∀ copy ∈ copies, copy.Beyond heap.size
  within : ∀ copy ∈ copies, copy.Within after.size

theorem grown_deepCopy (h : heap.Closed) (hcopy : heap.deepCopy limit v = some (copy, after)) :
    Grown heap after [copy] := by
  obtain ⟨-, hapart, hbeyond⟩ := (Apart.copying heap).deepCopy (.refl heap) hcopy
  obtain ⟨-, hclosed, hwithin⟩ := closed_copying.deepCopy h hcopy
  exact ⟨hapart, hclosed, by simpa using hbeyond, by simpa using hwithin⟩

theorem grown_copyItems (h : heap.Closed)
    (hcopies : copyItems (deepCopy limit) heap vs = some (copies, after)) :
    Grown heap after copies := by
  obtain ⟨-, hapart, hbeyond⟩ := (Apart.copying heap).copyItems
    (fun h hcopy => (Apart.copying heap).deepCopy h hcopy) (.refl heap) hcopies
  obtain ⟨-, hclosed, hwithin⟩ := closed_copying.copyItems
    (fun h hcopy => closed_copying.deepCopy h hcopy) h hcopies
  exact ⟨hapart, hclosed, hbeyond, hwithin⟩

/-- Copies that are made one after the other are private trees if each of them is one. -/
theorem copiesOf_copyItems_of (hcopy : ∀ {heap after : Heap} {v copy : Value}, host.Apart heap →
      heap.Closed → v.Within host.size → heap.deepCopy limit v = some (copy, after) →
      CopiesOf host heap.size after [v] [copy])
    (h : host.Apart heap) (hclosed : heap.Closed) (hvs : ∀ v ∈ vs, v.Within host.size)
    (hcopies : copyItems (deepCopy limit) heap vs = some (copies, after)) :
    CopiesOf host heap.size after vs copies := by
  induction vs generalizing heap copies with
  | nil =>
    cases hcopies
    exact .nil
  | cons v vs ih =>
    rw [copyItems_cons, Option.bind_eq_some_iff] at hcopies
    obtain ⟨⟨copy, between⟩, hfirst, hrest⟩ := hcopies
    obtain ⟨⟨others, after⟩, hrest, heq⟩ := Option.map_eq_some_iff.mp hrest
    cases heq
    have hgrown := grown_deepCopy hclosed hfirst
    have hgrown' := grown_copyItems hgrown.closed hrest
    rw [List.forall_mem_cons] at hvs
    exact .cons (hcopy h hclosed hvs.1 hfirst) (ih (h.deepCopy hfirst) hgrown.closed hvs.2 hrest)
      hgrown.apart.size_le hgrown.closed hgrown'.apart (hgrown.within copy List.mem_cons_self)

/-- **A deep copy is a private tree**, made on any heap apart from the one in which the value lies. -/
theorem copiesOf_deepCopy (hhost : host.Closed) (h : host.Apart heap) (hclosed : heap.Closed)
    (hv : v.Within host.size) (hcopy : heap.deepCopy limit v = some (copy, after)) :
    CopiesOf host heap.size after [v] [copy] := by
  induction limit generalizing heap v copy after with
  | zero =>
    rcases v.array_or_kind_ne with ⟨ref, rfl⟩ | hkind
    · cases hcopy
    · rw [deepCopy_of_kind hkind] at hcopy
      cases hcopy
      exact .plain hkind
  | succ limit ih =>
    rcases v.array_or_kind_ne with ⟨ref, rfl⟩ | hkind
    · have hread : heap.read ref = host.read ref := h.read_eq ref (hv ref rfl)
      rw [deepCopy_succ, hread] at hcopy
      obtain ⟨⟨copies, between⟩, hcopies, heq⟩ := Option.map_eq_some_iff.mp hcopy
      cases heq
      have hgrown := grown_copyItems hclosed hcopies
      refine .array ?_ hgrown.apart.size_le hgrown.closed hgrown.within
      refine copiesOf_copyItems_of ih h hclosed (fun v hv => ?_) hcopies
      exact hhost ref v (Array.mem_toList_iff.mp hv)
    · rw [deepCopy_of_kind hkind] at hcopy
      cases hcopy
      exact .plain hkind

theorem copiesOf_copyItems (hhost : host.Closed) (h : host.Apart heap) (hclosed : heap.Closed)
    (hvs : ∀ v ∈ vs, v.Within host.size)
    (hcopies : copyItems (deepCopy limit) heap vs = some (copies, after)) :
    CopiesOf host heap.size after vs copies :=
  copiesOf_copyItems_of (fun h hclosed hv hcopy => copiesOf_deepCopy hhost h hclosed hv hcopy)
    h hclosed hvs hcopies

/-! ## 4. What a copy is to its owner -/

/-- The copy is a private copy of the value: its storages are new, each is come to on one way, those
that were there are unchanged, and it cannot be told from the value by its structure, nor by its kind,
its truth value, its number, or its text within the limit it was made under or a higher one. -/
structure PrivateCopy (limit : Nat) (heap after : Heap) (v copy : Value) : Prop where
  new : ∀ target, after.Reaches copy target → heap.size ≤ target.index
  unshared : after.Unshared copy
  unchanged : ∀ ref, ref.index < heap.size → after.read ref = heap.read ref
  same : SameStructure Eq heap after v copy
  render_eq : ∀ limit', limit ≤ limit' → after.render limit' copy = heap.render limit' v
  toNumber_eq : after.toNumber copy = heap.toNumber v
  isTrue_eq : copy.isTrue = v.isTrue
  kind_eq : copy.kind = v.kind

/-- Copies in their ranges are private copies of the values. -/
theorem CopiesOf.privateCopy (h : CopiesOf heap heap.size after vs copies)
    (hapart : heap.Apart after) (hnests : ∀ v ∈ vs, heap.NestsWithin limit v) :
    List.Forall₂ (PrivateCopy limit heap after) vs copies := by
  rw [List.forall₂_iff_get]
  obtain ⟨hlength, hsame⟩ := List.forall₂_iff_get.mp h.same
  refine ⟨hlength, fun i hi hi' => ?_⟩
  have hsame := hsame i hi hi'
  exact {
    new := h.new _ (List.get_mem copies ⟨i, hi'⟩)
    unshared := h.unshared _ (List.get_mem copies ⟨i, hi'⟩)
    unchanged := hapart.read_eq
    same := hsame
    render_eq := fun _ hle => hsame.render_eq (fun _ _ h => congrArg Number.text h.symm)
      ((hnests _ (List.get_mem vs ⟨i, hi⟩)).mono hle)
    toNumber_eq := hsame.toNumber_eq
    isTrue_eq := hsame.isTrue_eq
    kind_eq := hsame.kind_eq }

theorem privateCopy_deepCopy (hheap : heap.Closed) (hv : v.Within heap.size)
    (hcopy : heap.deepCopy limit v = some (copy, after)) : PrivateCopy limit heap after v copy := by
  have hnests : heap.NestsWithin limit v :=
    (isSome_deepCopy_iff hheap hv (.refl heap)).mp (by simp [hcopy])
  have hcopies := copiesOf_deepCopy hheap (.refl heap) hheap hv hcopy
  have hall := hcopies.privateCopy (grown_deepCopy hheap hcopy).apart (by simpa using hnests)
  simpa using hall

end GlyphStack.Heap
