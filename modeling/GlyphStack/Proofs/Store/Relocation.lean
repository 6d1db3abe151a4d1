import Mathlib.Algebra.Group.End
import Mathlib.Data.List.Perm.Basic
import GlyphStack.Proofs.Store.PrivateCopies

/-!
Where copies are put. A deep copy adds a block of storages at the end of the heap, and what the block
holds hangs on the heap only through the place where it begins. So on another heap the same block is
added, moved to the end of that heap (`deepCopy_moved`).

When several values are copied one after the other, their blocks follow each other in that order.
Copying in another order gives the same blocks in other places: two that are neighbours swap
(`renamed_swapBlocks`), and every order comes about by swapping neighbours. So what the order changes
is the names of the new storages and nothing else (`copyEntries_perm`).
-/

namespace GlyphStack

/-! ## 1. Other names for storages -/

/-- The value with another reference in place of its own. -/
def Value.rename (f : Ref → Ref) : Value → Value
  | .array ref => .array (f ref)
  | .string text => .string text
  | .number x => .number x
  | .absent => .absent

namespace Value

variable {f g : Ref → Ref} {v : Value}

theorem rename_of_kind_ne (h : v.kind ≠ .array) : v.rename f = v := by
  cases v with
  | array => exact absurd rfl h
  | string => rfl
  | number => rfl
  | absent => rfl

theorem rename_congr (h : ∀ ref, v = .array ref → f ref = g ref) : v.rename f = v.rename g := by
  cases v with
  | array ref => exact congrArg Value.array (h ref rfl)
  | string => rfl
  | number => rfl
  | absent => rfl

@[simp] theorem rename_id : rename id = id := by
  funext v
  cases v <;> rfl

theorem rename_eq_self (h : ∀ ref, v = .array ref → f ref = ref) : v.rename f = v :=
  (rename_congr h).trans (congrFun rename_id v)

theorem rename_rename (f g : Ref → Ref) (v : Value) : (v.rename f).rename g = v.rename (g ∘ f) := by
  cases v <;> rfl

theorem Beyond.le_index {size : Nat} (h : v.Beyond size) (ref : Ref) (href : v = .array ref) :
    size ≤ ref.index := by
  subst href
  exact h

end Value

/-- The reference as many places on as `start'` is from `start`. -/
def Ref.moved (start start' : Nat) (ref : Ref) : Ref :=
  ⟨ref.index + start' - start⟩

theorem Ref.moved_add (start start' n : Nat) :
    moved (start + n) (start' + n) = moved start start' := by
  funext ref
  exact congrArg Ref.mk (by omega)

theorem Ref.moved_self (start : Nat) : moved start start = id := by
  funext ref
  exact congrArg Ref.mk (Nat.add_sub_cancel ref.index start)

namespace Heap

variable {host heap other between after base : Heap} {limit : Nat} {f g : Ref → Ref}
  {block first second : Array (Array Value)} {v w copy : Value} {vs copies : List Value} {ref : Ref}

/-! ## 2. Blocks of storages -/

/-- The heap with a block of storages added at its end. -/
def grown (heap : Heap) (block : Array (Array Value)) : Heap :=
  ⟨heap.storages ++ block⟩

/-- A block with other references. -/
def renameAll (f : Ref → Ref) (block : Array (Array Value)) : Array (Array Value) :=
  block.map (Array.map (Value.rename f))

@[simp] theorem size_grown (heap : Heap) (block : Array (Array Value)) :
    (heap.grown block).size = heap.size + block.size :=
  Array.size_append

@[simp] theorem size_renameAll (f : Ref → Ref) (block : Array (Array Value)) :
    (renameAll f block).size = block.size :=
  Array.size_map

theorem grown_grown (heap : Heap) (first second : Array (Array Value)) :
    (heap.grown first).grown second = heap.grown (first ++ second) :=
  congrArg Heap.mk Array.append_assoc

theorem renameAll_append (f : Ref → Ref) (first second : Array (Array Value)) :
    renameAll f (first ++ second) = renameAll f first ++ renameAll f second :=
  Array.map_append

@[simp] theorem renameAll_id (block : Array (Array Value)) : renameAll id block = block := by
  simp [renameAll]

theorem read_grown_of_lt (block : Array (Array Value)) (h : ref.index < heap.size) :
    (heap.grown block).read ref = heap.read ref := by
  have h' : ref.index < heap.storages.size := h
  simp only [read, grown, Array.getD_eq_getD_getElem?, Array.getElem?_append_left h']

theorem read_grown_of_le (block : Array (Array Value)) (h : heap.size ≤ ref.index) :
    (heap.grown block).read ref = block.getD (ref.index - heap.size) #[] := by
  have h' : heap.storages.size ≤ ref.index := h
  simp only [read, grown, Array.getD_eq_getD_getElem?, Array.getElem?_append_right h', size]

theorem getD_renameAll (f : Ref → Ref) (block : Array (Array Value)) (i : Nat) :
    (renameAll f block).getD i #[] = (block.getD i #[]).map (Value.rename f) := by
  rw [renameAll, Array.getD_eq_getD_getElem?, Array.getD_eq_getD_getElem?, Array.getElem?_map]
  cases block[i]? <;> simp

theorem alloc_grown (heap : Heap) (block : Array (Array Value)) (items : Array Value) :
    (heap.grown block).alloc items = (⟨heap.size + block.size⟩, heap.grown (block.push items)) := by
  rw [← size_grown]
  exact congrArg (Prod.mk _) (congrArg Heap.mk Array.append_push.symm)

/-! ## 3. Copies on another heap -/

theorem copyItems_moved_of
    (hcopy : ∀ {heap other after : Heap} {v copy : Value}, host.Apart heap → host.Apart other →
      v.Within host.size → heap.deepCopy limit v = some (copy, after) →
      ∃ block, after = heap.grown block ∧
        other.deepCopy limit v = some (copy.rename (.moved heap.size other.size),
          other.grown (renameAll (.moved heap.size other.size) block)))
    (h : host.Apart heap) (hother : host.Apart other) (hvs : ∀ v ∈ vs, v.Within host.size)
    (hcopies : copyItems (deepCopy limit) heap vs = some (copies, after)) :
    ∃ block, after = heap.grown block ∧
      copyItems (deepCopy limit) other vs = some (copies.map (.rename (.moved heap.size other.size)),
        other.grown (renameAll (.moved heap.size other.size) block)) := by
  induction vs generalizing heap other copies with
  | nil =>
    cases hcopies
    exact ⟨#[], by simp [grown], by simp [copyItems, grown, renameAll]⟩
  | cons v vs ih =>
    rw [copyItems_cons, Option.bind_eq_some_iff] at hcopies
    obtain ⟨⟨copy, between⟩, hfirst, hrest⟩ := hcopies
    obtain ⟨⟨others, after⟩, hrest, heq⟩ := Option.map_eq_some_iff.mp hrest
    cases heq
    rw [List.forall_mem_cons] at hvs
    obtain ⟨block, rfl, hfirst'⟩ := hcopy h hother hvs.1 hfirst
    obtain ⟨block', rfl, hrest'⟩ := ih (h.deepCopy hfirst) (hother.deepCopy hfirst') hvs.2 hrest
    -- both heaps have grown by as many storages, so the references are still as far apart
    rw [size_grown, size_grown, size_renameAll, Ref.moved_add, grown_grown,
      ← renameAll_append] at hrest'
    refine ⟨block ++ block', grown_grown _ _ _, ?_⟩
    simp only [copyItems_cons, hfirst', Option.bind_some, hrest', Option.map_some, List.map_cons]

/-- **A deep copy is the same on another heap**, but for the place at which its storages are
added. -/
theorem deepCopy_moved (hhost : host.Closed) (h : host.Apart heap) (hother : host.Apart other)
    (hv : v.Within host.size) (hcopy : heap.deepCopy limit v = some (copy, after)) :
    ∃ block, after = heap.grown block ∧
      other.deepCopy limit v = some (copy.rename (.moved heap.size other.size),
        other.grown (renameAll (.moved heap.size other.size) block)) := by
  have hplain {heap other after : Heap} {limit : Nat} {v copy : Value} (hkind : v.kind ≠ .array)
      (hcopy : heap.deepCopy limit v = some (copy, after)) :
      ∃ block, after = heap.grown block ∧
        other.deepCopy limit v = some (copy.rename (.moved heap.size other.size),
          other.grown (renameAll (.moved heap.size other.size) block)) := by
    rw [deepCopy_of_kind hkind] at hcopy
    cases hcopy
    refine ⟨#[], by simp [grown], ?_⟩
    rw [deepCopy_of_kind hkind, Value.rename_of_kind_ne hkind]
    simp [grown, renameAll]
  induction limit generalizing heap other v copy after with
  | zero =>
    rcases v.array_or_kind_ne with ⟨ref, rfl⟩ | hkind
    · cases hcopy
    · exact hplain hkind hcopy
  | succ limit ih =>
    rcases v.array_or_kind_ne with ⟨ref, rfl⟩ | hkind
    · have hread : heap.read ref = host.read ref := h.read_eq ref (hv ref rfl)
      have hread' : other.read ref = host.read ref := hother.read_eq ref (hv ref rfl)
      have hitems : ∀ v ∈ (host.read ref).toList, v.Within host.size := fun v hv =>
        hhost ref v (Array.mem_toList_iff.mp hv)
      rw [deepCopy_succ, hread] at hcopy
      obtain ⟨⟨copies, between⟩, hcopies, heq⟩ := Option.map_eq_some_iff.mp hcopy
      obtain ⟨block, rfl, hcopies'⟩ := copyItems_moved_of ih h hother hitems hcopies
      simp only [alloc_grown] at heq
      cases heq
      refine ⟨block.push copies.toArray, rfl, ?_⟩
      have hindex : heap.size + block.size + other.size - heap.size = other.size + block.size := by
        omega
      have hroot : Ref.moved heap.size other.size ⟨heap.size + block.size⟩ =
          ⟨other.size + block.size⟩ := congrArg Ref.mk hindex
      simp [deepCopy_succ, hread', hcopies', alloc_grown, Value.rename, hroot, renameAll]
    · exact hplain hkind hcopy

theorem copyItems_moved (hhost : host.Closed) (h : host.Apart heap) (hother : host.Apart other)
    (hvs : ∀ v ∈ vs, v.Within host.size)
    (hcopies : copyItems (deepCopy limit) heap vs = some (copies, after)) :
    ∃ block, after = heap.grown block ∧
      copyItems (deepCopy limit) other vs = some (copies.map (.rename (.moved heap.size other.size)),
        other.grown (renameAll (.moved heap.size other.size) block)) :=
  copyItems_moved_of (fun h hother hv hcopy => deepCopy_moved hhost h hother hv hcopy)
    h hother hvs hcopies

/-! ## 4. Heaps that differ in names -/

/-- The other heap is the heap with its storages renamed. -/
structure Renamed (σ : Equiv.Perm Ref) (heap other : Heap) : Prop where
  size_eq : other.size = heap.size
  read_eq : ∀ ref, other.read (σ ref) = (heap.read ref).map (Value.rename σ)

/-- The references in the block are at least `low` and below `high`. -/
def Spans (block : Array (Array Value)) (low high : Nat) : Prop :=
  ∀ items ∈ block, ∀ v ∈ items, ∀ ref, v = .array ref → low ≤ ref.index ∧ ref.index < high

theorem Spans.getD {low high : Nat} (h : Spans block low high) (i : Nat) :
    ∀ v ∈ block.getD i #[], ∀ ref, v = .array ref → low ≤ ref.index ∧ ref.index < high := by
  rw [Array.getD_eq_getD_getElem?]
  rcases Nat.lt_or_ge i block.size with hlt | hge
  · rw [Array.getElem?_eq_getElem hlt, Option.getD_some]
    exact h _ (Array.getElem_mem hlt)
  · rw [Array.getElem?_eq_none hge]
    simp

/-- What is added to a heap by copying refers to what is added. -/
theorem Grown.spans (h : Grown heap (heap.grown block) copies) :
    Spans block heap.size (heap.size + block.size) := by
  intro items hitems v hv ref href
  obtain ⟨i, hi, rfl⟩ := Array.mem_iff_getElem.mp hitems
  have hread : (heap.grown block).read ⟨heap.size + i⟩ = block[i] := by
    rw [read_grown_of_le block (Nat.le_add_right _ _)]
    simp [Array.getD_eq_getD_getElem?, hi]
  rw [← hread] at hv
  have hbeyond := h.apart.beyond ⟨heap.size + i⟩ (Nat.le_add_right _ _) v hv
  have hwithin := h.closed _ v hv ref href
  rw [size_grown] at hwithin
  exact ⟨hbeyond.le_index ref href, hwithin⟩

theorem map_rename_congr {items : Array Value}
    (h : ∀ v ∈ items, ∀ ref, v = .array ref → f ref = g ref) :
    items.map (Value.rename f) = items.map (Value.rename g) :=
  Array.map_congr_left fun v hv => Value.rename_congr (h v hv)

theorem map_rename_eq_self {items : Array Value}
    (h : ∀ v ∈ items, ∀ ref, v = .array ref → f ref = ref) : items.map (Value.rename f) = items := by
  rw [map_rename_congr (g := id) h, Value.rename_id, Array.map_id]

namespace Renamed

variable {σ τ : Equiv.Perm Ref}

theorem refl (heap : Heap) : Renamed 1 heap heap where
  size_eq := rfl
  read_eq _ := (map_rename_eq_self fun _ _ _ _ => rfl).symm

theorem trans (h : Renamed σ heap other) (h' : Renamed τ other after) :
    Renamed (τ * σ) heap after where
  size_eq := h'.size_eq.trans h.size_eq
  read_eq ref := by
    rw [Equiv.Perm.mul_apply, h'.read_eq, h.read_eq, Array.map_map]
    exact Array.map_congr_left fun v _ => Value.rename_rename σ τ v

/-- A renaming that leaves what comes after the heap alone goes on when both heaps grow by the same
block there. -/
theorem grown (h : Renamed σ heap other) (hnew : ∀ ref, heap.size ≤ ref.index → σ ref = ref)
    (hblock : Spans block heap.size (heap.size + block.size)) :
    Renamed σ (heap.grown block) (other.grown block) where
  size_eq := by rw [size_grown, size_grown, h.size_eq]
  read_eq ref := by
    rcases Nat.lt_or_ge ref.index heap.size with hlt | hge
    · have hlt' : (σ ref).index < other.size := by
        by_contra hge
        have hfix := σ.injective (hnew (σ ref) (h.size_eq ▸ Nat.not_lt.mp hge))
        rw [hfix, h.size_eq] at hge
        exact hge hlt
      rw [read_grown_of_lt block hlt, read_grown_of_lt block hlt', h.read_eq]
    · rw [hnew ref hge, read_grown_of_le block hge, read_grown_of_le block (h.size_eq ▸ hge),
        h.size_eq]
      exact (map_rename_eq_self fun v hv ref href =>
        hnew ref (hblock.getD _ v hv ref href).1).symm

end Renamed

/-! ## 5. Swapping two blocks -/

/-- Where the place is when `m` places from `start` on and the `n` after them have swapped. -/
def swapIndex (start m n i : Nat) : Nat :=
  if i < start then i
  else if i < start + m then i + n
  else if i < start + m + n then i - m
  else i

theorem swapIndex_swapIndex (start m n i : Nat) :
    swapIndex start n m (swapIndex start m n i) = i := by
  unfold swapIndex
  split_ifs <;> omega

/-- Swaps `m` storages from `start` on with the `n` after them. -/
def swapBlocks (start m n : Nat) : Equiv.Perm Ref where
  toFun ref := ⟨swapIndex start m n ref.index⟩
  invFun ref := ⟨swapIndex start n m ref.index⟩
  left_inv _ := congrArg Ref.mk (swapIndex_swapIndex _ _ _ _)
  right_inv _ := congrArg Ref.mk (swapIndex_swapIndex _ _ _ _)

section

variable {start m n : Nat}

theorem swapBlocks_of_lt (h : ref.index < start) : swapBlocks start m n ref = ref := by
  show Ref.mk (swapIndex start m n ref.index) = ref
  rw [swapIndex, if_pos h]

theorem swapBlocks_first (h : start ≤ ref.index) (h' : ref.index < start + m) :
    swapBlocks start m n ref = .moved start (start + n) ref := by
  show Ref.mk (swapIndex start m n ref.index) = _
  rw [swapIndex, if_neg (Nat.not_lt.mpr h), if_pos h']
  exact congrArg Ref.mk (by omega)

theorem swapBlocks_second (h : start + m ≤ ref.index) (h' : ref.index < start + m + n) :
    swapBlocks start m n ref = .moved (start + m) start ref := by
  show Ref.mk (swapIndex start m n ref.index) = _
  rw [swapIndex, if_neg (by omega), if_neg (Nat.not_lt.mpr h), if_pos h']
  exact congrArg Ref.mk (by omega)

theorem swapBlocks_of_le (h : start + m + n ≤ ref.index) : swapBlocks start m n ref = ref := by
  show Ref.mk (swapIndex start m n ref.index) = ref
  rw [swapIndex, if_neg (by omega), if_neg (by omega), if_neg (Nat.not_lt.mpr h)]

end

/-- Two blocks that were added in one order, or in the other one, differ in names. -/
theorem renamed_swapBlocks (hbase : base.Closed)
    (hfirst : Spans first base.size (base.size + first.size))
    (hsecond : Spans second (base.size + first.size) (base.size + first.size + second.size)) :
    Renamed (swapBlocks base.size first.size second.size) ((base.grown first).grown second)
      ((base.grown (renameAll (.moved (base.size + first.size) base.size) second)).grown
        (renameAll (.moved base.size (base.size + second.size)) first)) where
  size_eq := by
    simp only [size_grown, size_renameAll]
    omega
  read_eq ref := by
    rcases Nat.lt_or_ge ref.index base.size with hlt | hge
    · rw [swapBlocks_of_lt hlt, read_grown_of_lt _ (by simp; omega), read_grown_of_lt _ hlt,
        read_grown_of_lt _ (by simp; omega), read_grown_of_lt _ hlt]
      exact (map_rename_eq_self fun v hv ref' href =>
        swapBlocks_of_lt (hbase ref v hv ref' href)).symm
    rcases Nat.lt_or_ge ref.index (base.size + first.size) with hlt | hge'
    · rw [swapBlocks_first hge hlt, read_grown_of_le _ (by simp [Ref.moved]; omega), getD_renameAll,
        read_grown_of_lt second (by simpa using hlt), read_grown_of_le first hge]
      have hindex : (Ref.moved base.size (base.size + second.size) ref).index -
          (base.grown (renameAll (.moved (base.size + first.size) base.size) second)).size =
            ref.index - base.size := by
        simp only [Ref.moved, size_grown, size_renameAll]
        omega
      rw [hindex]
      exact map_rename_congr fun v hv ref' href =>
        (swapBlocks_first (hfirst.getD _ v hv ref' href).1 (hfirst.getD _ v hv ref' href).2).symm
    rcases Nat.lt_or_ge ref.index (base.size + first.size + second.size) with hlt | hge''
    · rw [swapBlocks_second hge' hlt, read_grown_of_lt _ (by simp [Ref.moved]; omega),
        read_grown_of_le _ (by simp [Ref.moved]; omega), getD_renameAll,
        read_grown_of_le second (by simpa using hge')]
      have hindex : (Ref.moved (base.size + first.size) base.size ref).index - base.size =
          ref.index - (base.grown first).size := by
        simp only [Ref.moved, size_grown]
        omega
      rw [hindex]
      exact map_rename_congr fun v hv ref' href =>
        (swapBlocks_second (hsecond.getD _ v hv ref' href).1 (hsecond.getD _ v hv ref' href).2).symm
    · rw [swapBlocks_of_le hge'', read_of_le (by simp; omega), read_of_le (by simp; omega),
        Array.map_empty]

/-- Two values that are copied in one order, or in the other one, have the same copies but for the
names of the new storages. -/
theorem deepCopy_swap (hhost : host.Closed) (h : host.Apart base) (hbase : base.Closed)
    (hv : v.Within host.size) (hw : w.Within host.size) {copy' : Value}
    (hcopy : base.deepCopy limit v = some (copy, between))
    (hcopy' : between.deepCopy limit w = some (copy', after)) :
    ∃ σ : Equiv.Perm Ref, ∃ between' after',
      base.deepCopy limit w = some (copy'.rename σ, between') ∧
        between'.deepCopy limit v = some (copy.rename σ, after') ∧ Renamed σ after after' ∧
          (∀ ref, ref.index < base.size → σ ref = ref) ∧
            ∀ ref, after.size ≤ ref.index → σ ref = ref := by
  have hgrown := grown_deepCopy hbase hcopy
  have hgrown' := grown_deepCopy hgrown.closed hcopy'
  obtain ⟨second, rfl, hw'⟩ := deepCopy_moved hhost (h.deepCopy hcopy) h hw hcopy'
  obtain ⟨first, rfl, hv'⟩ := deepCopy_moved hhost h (h.deepCopy hw') hv hcopy
  have hfirst := hgrown.spans
  have hsecond := hgrown'.spans
  have hbeyond := hgrown.beyond copy List.mem_cons_self
  have hbeyond' := hgrown'.beyond copy' List.mem_cons_self
  have hwithin := hgrown.within copy List.mem_cons_self
  have hwithin' := hgrown'.within copy' List.mem_cons_self
  simp only [size_grown, size_renameAll] at hv' hw' hsecond hbeyond' hwithin hwithin'
  rw [Value.rename_congr fun ref href =>
    (swapBlocks_second (hbeyond'.le_index ref href) (hwithin' ref href)).symm] at hw'
  rw [Value.rename_congr fun ref href =>
    (swapBlocks_first (n := second.size) (hbeyond.le_index ref href) (hwithin ref href)).symm] at hv'
  refine ⟨_, _, _, hw', hv', renamed_swapBlocks hbase hfirst hsecond, fun _ => swapBlocks_of_lt, ?_⟩
  intro ref hge
  simp only [size_grown] at hge
  exact swapBlocks_of_le hge

end Heap

/-! ## 6. Entries in another order -/

namespace Dictionary

variable {host heap other base after : Heap} {limit : Nat}
  {entries entries' copies : List (String × Value)}

/-- The entries with other references in their values. -/
def renameEntries (f : Ref → Ref) (entries : List (String × Value)) : List (String × Value) :=
  entries.map fun entry => (entry.1, entry.2.rename f)

theorem renameEntries_eq_self {f : Ref → Ref}
    (h : ∀ entry ∈ entries, ∀ ref, entry.2 = .array ref → f ref = ref) :
    renameEntries f entries = entries :=
  calc renameEntries f entries
    _ = entries.map id :=
        List.map_congr_left fun entry hmem => Prod.ext rfl (Value.rename_eq_self (h entry hmem))
    _ = entries := List.map_id entries

theorem renameEntries_renameEntries (f g : Ref → Ref) (entries : List (String × Value)) :
    renameEntries g (renameEntries f entries) = renameEntries (g ∘ f) entries := by
  simp [renameEntries, Value.rename_rename]

theorem grown_copyEntries (h : heap.Closed)
    (hcopies : copyEntries limit heap entries = some (copies, after)) :
    Heap.Grown heap after (copies.map Prod.snd) := by
  obtain ⟨-, hapart, hbeyond⟩ := (Heap.Apart.copying heap).copyEntries (.refl heap) hcopies
  obtain ⟨-, hclosed, hwithin⟩ := Heap.closed_copying.copyEntries h hcopies
  exact ⟨hapart, hclosed, List.forall_mem_map.mpr hbeyond, List.forall_mem_map.mpr hwithin⟩

/-- On a heap of the same size the copies of entries are the same. -/
theorem copyEntries_of_size_eq (hhost : host.Closed) (h : host.Apart heap) (hother : host.Apart other)
    (hsize : other.size = heap.size) (hentries : ∀ entry ∈ entries, entry.2.Within host.size)
    (hcopies : copyEntries limit heap entries = some (copies, after)) :
    ∃ block, after = heap.grown block ∧
      copyEntries limit other entries = some (copies, other.grown block) := by
  rw [copyEntries_eq] at hcopies
  obtain ⟨⟨values, after⟩, hvalues, heq⟩ := Option.map_eq_some_iff.mp hcopies
  cases heq
  have hwithin : ∀ v ∈ entries.map Prod.snd, v.Within host.size := List.forall_mem_map.mpr hentries
  obtain ⟨block, rfl, hvalues'⟩ := Heap.copyItems_moved hhost h hother hwithin hvalues
  rw [hsize, Ref.moved_self, Heap.renameAll_id, Value.rename_id, List.map_id] at hvalues'
  exact ⟨block, rfl, by rw [copyEntries_eq, hvalues', Option.map_some]⟩

/-- The first two entries may be copied in either order. -/
theorem copyEntries_swap (hhost : host.Closed) (h : host.Apart base) (hbase : base.Closed)
    {first second : String × Value} {rest : List (String × Value)}
    (hentries : ∀ entry ∈ first :: second :: rest, entry.2.Within host.size)
    (hcopies : copyEntries limit base (first :: second :: rest) = some (copies, after)) :
    ∃ σ : Equiv.Perm Ref, ∃ copies' after',
      copyEntries limit base (second :: first :: rest) = some (copies', after') ∧
        (∀ ref, ref.index < base.size → σ ref = ref) ∧ Heap.Renamed σ after after' ∧
          (renameEntries σ copies).Perm copies' := by
  rw [copyEntries_cons, Option.bind_eq_some_iff] at hcopies
  obtain ⟨⟨copy, between⟩, hcopy, hrest⟩ := hcopies
  obtain ⟨⟨others, after⟩, hrest, heq⟩ := Option.map_eq_some_iff.mp hrest
  cases heq
  rw [copyEntries_cons, Option.bind_eq_some_iff] at hrest
  obtain ⟨⟨copy', last⟩, hcopy', hrest⟩ := hrest
  obtain ⟨⟨others, after⟩, hrest, heq⟩ := Option.map_eq_some_iff.mp hrest
  cases heq
  rw [List.forall_mem_cons, List.forall_mem_cons] at hentries
  obtain ⟨hfirst, hsecond, hothers⟩ := hentries
  obtain ⟨σ, between', last', hsecond', hfirst', hrenamed, hold, hnew⟩ :=
    Heap.deepCopy_swap hhost h hbase hfirst hsecond hcopy hcopy'
  have hlast := (h.deepCopy hcopy).deepCopy hcopy'
  have hlast' := (h.deepCopy hsecond').deepCopy hfirst'
  -- what is copied after the two finds as many storages before it, whichever came first
  obtain ⟨block, rfl, hrest'⟩ :=
    copyEntries_of_size_eq hhost hlast hlast' hrenamed.size_eq hothers hrest
  have hclosed := (Heap.grown_deepCopy (Heap.grown_deepCopy hbase hcopy).closed hcopy').closed
  have hgrown := grown_copyEntries hclosed hrest
  have hbeyond := List.forall_mem_map.mp hgrown.beyond
  have hfix : renameEntries σ others = others := renameEntries_eq_self fun entry hmem ref href =>
    hnew ref ((hbeyond entry hmem).le_index ref href)
  refine ⟨σ, (second.1, copy'.rename σ) :: (first.1, copy.rename σ) :: others, last'.grown block,
    ?_, hold, hrenamed.grown hnew hgrown.spans, ?_⟩
  · simp only [copyEntries_cons, hsecond', hfirst', Option.bind_some, hrest', Option.map_some]
  · rw [renameEntries, List.map_cons, List.map_cons, ← renameEntries, hfix]
    exact .swap _ _ _

/-- **Entries may be copied in any order.** The copies are the same but for the names of the new
storages. -/
theorem copyEntries_perm (hhost : host.Closed) (hperm : entries.Perm entries') (h : host.Apart base)
    (hbase : base.Closed) (hentries : ∀ entry ∈ entries, entry.2.Within host.size)
    (hcopies : copyEntries limit base entries = some (copies, after)) :
    ∃ σ : Equiv.Perm Ref, ∃ copies' after', copyEntries limit base entries' = some (copies', after') ∧
      (∀ ref, ref.index < base.size → σ ref = ref) ∧ Heap.Renamed σ after after' ∧
        (renameEntries σ copies).Perm copies' := by
  induction hperm generalizing base copies after with
  | nil =>
    cases hcopies
    exact ⟨1, [], base, rfl, fun _ _ => rfl, .refl base, .nil⟩
  | @cons entry rest rest' _ ih =>
    rw [copyEntries_cons, Option.bind_eq_some_iff] at hcopies
    obtain ⟨⟨copy, between⟩, hcopy, hrest⟩ := hcopies
    obtain ⟨⟨others, after⟩, hrest, heq⟩ := Option.map_eq_some_iff.mp hrest
    cases heq
    rw [List.forall_mem_cons] at hentries
    have hgrown := Heap.grown_deepCopy hbase hcopy
    obtain ⟨σ, others', after', hrest', hold, hrenamed, hothers⟩ :=
      ih (h.deepCopy hcopy) hgrown.closed hentries.2 hrest
    have hfix : copy.rename σ = copy := Value.rename_eq_self fun ref href =>
      hold ref (hgrown.within copy List.mem_cons_self ref href)
    refine ⟨σ, (entry.1, copy) :: others', after', ?_, fun ref hlt => ?_, hrenamed, ?_⟩
    · simp only [copyEntries_cons, hcopy, Option.bind_some, hrest', Option.map_some]
    · exact hold ref (Nat.lt_of_lt_of_le hlt hgrown.apart.size_le)
    · rw [renameEntries, List.map_cons, hfix]
      exact hothers.cons _
  | swap second first rest => exact copyEntries_swap hhost h hbase hentries hcopies
  | trans hperm _ ih ih' =>
    obtain ⟨σ, copies', after', hcopies', hold, hrenamed, hsame⟩ := ih h hbase hentries hcopies
    obtain ⟨τ, copies'', after'', hcopies'', hold', hrenamed', hsame'⟩ :=
      ih' h hbase (fun entry hmem => hentries entry (hperm.mem_iff.mpr hmem)) hcopies'
    refine ⟨τ * σ, copies'', after'', hcopies'', fun ref hlt => ?_, hrenamed.trans hrenamed', ?_⟩
    · rw [Equiv.Perm.mul_apply, hold ref hlt, hold' ref hlt]
    · rw [Equiv.Perm.coe_mul, ← renameEntries_renameEntries]
      exact (hsame.map _).trans hsame'

end Dictionary

end GlyphStack
