import GlyphStack.Proofs.Store.Relocation

/-!
Snapshots: what a program gets of a host's variables. Every variable has its own private copy of the
value, so the program cannot tell the copies from the values, and whatever it does to one of them is
seen neither by the host nor in another variable.

A host's dictionary may hand out its entries in any order, and copying takes them as they come. That
decides which storages the copies have, and nothing that a program can observe.
-/

namespace GlyphStack

namespace Dictionary

variable {heap after : Heap} {limit : Nat} {bindings other copies : Dictionary}
  {entries : List (String × Value)}

/-! ## 1. When there is a snapshot -/

theorem snapshot_eq_ok_iff : bindings.snapshot limit heap = .ok (copies, after) ↔
    copyEntries limit heap bindings.entries = some (copies.entries, after) := by
  obtain ⟨copies⟩ := copies
  rw [snapshot]
  cases copyEntries limit heap bindings.entries with
  | none => simp
  | some result => simp [Prod.ext_iff]

theorem isSome_copyEntries_iff (hheap : heap.Closed)
    (hentries : ∀ entry ∈ entries, entry.2.Within heap.size) :
    (copyEntries limit heap entries).isSome ↔
      ∀ entry ∈ entries, (heap.deepCopy limit entry.2).isSome := by
  have hcopy : ∀ v ∈ entries.map Prod.snd, ∀ {between : Heap}, heap.Apart between →
      ((between.deepCopy limit v).isSome ↔ (heap.deepCopy limit v).isSome) := by
    intro v hv between hapart
    have hwithin := List.forall_mem_map.mpr hentries v hv
    rw [Heap.isSome_deepCopy_iff hheap hwithin hapart,
      Heap.isSome_deepCopy_iff hheap hwithin (.refl heap)]
  rw [copyEntries_eq, Option.isSome_map,
    Heap.isSome_copyItems_iff hcopy (fun h hcopy => h.deepCopy hcopy) (.refl heap),
    List.forall_mem_map]

/-- There is a snapshot exactly if every value has a deep copy where it lies. -/
theorem exists_snapshot_iff (hheap : heap.Closed)
    (hentries : ∀ entry ∈ bindings.entries, entry.2.Within heap.size) :
    (∃ copies after, bindings.snapshot limit heap = .ok (copies, after)) ↔
      ∀ entry ∈ bindings.entries, (heap.deepCopy limit entry.2).isSome := by
  rw [← isSome_copyEntries_iff hheap hentries, Option.isSome_iff_exists]
  constructor
  · rintro ⟨copies, after, h⟩
    exact ⟨_, snapshot_eq_ok_iff.mp h⟩
  · rintro ⟨⟨copies, after⟩, h⟩
    exact ⟨⟨copies⟩, after, snapshot_eq_ok_iff.mpr h⟩

/-! ## 2. The copies -/

theorem forall₂_zip {related : Value → Value → Prop} {values : List Value}
    (h : List.Forall₂ related (entries.map Prod.snd) values) :
    List.Forall₂ (fun entry copy => copy.1 = entry.1 ∧ related entry.2 copy.2) entries
      ((entries.map Prod.fst).zip values) := by
  induction entries generalizing values with
  | nil =>
    cases h
    exact .nil
  | cons entry rest ih =>
    cases h with
    | cons hfirst hrest => exact .cons ⟨rfl, hfirst⟩ (ih hrest)

/-- The snapshot has the names of the dictionary, each with a private copy of its value, and no two of
the copies have a storage in common. -/
theorem privateCopies_snapshot (hheap : heap.Closed)
    (hentries : ∀ entry ∈ bindings.entries, entry.2.Within heap.size)
    (hsnapshot : bindings.snapshot limit heap = .ok (copies, after)) :
    List.Forall₂ (fun entry copy => copy.1 = entry.1 ∧
        Heap.PrivateCopy limit heap after entry.2 copy.2) bindings.entries copies.entries ∧
      copies.entries.Pairwise fun first second => after.Separate first.2 second.2 := by
  have hcopies := snapshot_eq_ok_iff.mp hsnapshot
  have hwithin : ∀ v ∈ bindings.entries.map Prod.snd, v.Within heap.size :=
    List.forall_mem_map.mpr hentries
  have hsome : ∀ v ∈ bindings.entries.map Prod.snd, (heap.deepCopy limit v).isSome :=
    List.forall_mem_map.mpr ((exists_snapshot_iff hheap hentries).mp ⟨copies, after, hsnapshot⟩)
  have hnests : ∀ v ∈ bindings.entries.map Prod.snd, heap.NestsWithin limit v := fun v hv =>
    (Heap.isSome_deepCopy_iff hheap (hwithin v hv) (.refl heap)).mp (hsome v hv)
  rw [copyEntries_eq] at hcopies
  obtain ⟨⟨values, after⟩, hvalues, heq⟩ := Option.map_eq_some_iff.mp hcopies
  obtain ⟨hnames, rfl⟩ := Prod.mk.inj heq
  have hcopiesOf := Heap.copiesOf_copyItems hheap (.refl heap) hheap hwithin hvalues
  have hlength : values.length ≤ (bindings.entries.map Prod.fst).length := by
    simpa using hcopiesOf.same.length_eq.ge
  have hprivate := hcopiesOf.privateCopy (Heap.grown_copyItems hheap hvalues).apart hnests
  have hseparate := hcopiesOf.separate
  rw [← List.map_snd_zip hlength, List.pairwise_map] at hseparate
  rw [← hnames]
  exact ⟨forall₂_zip hprivate, hseparate⟩

/-! ## 3. Snapshots in another order -/

/-- Two outcomes of a snapshot are the same but for the names of the storages after the first `size`
ones, and for the order of the entries: both failed with one fault, or one is the other renamed. -/
inductive SameOutcome (size : Nat) :
    Except Fault (Dictionary × Heap) → Except Fault (Dictionary × Heap) → Prop where
  | failed (fault : Fault) : SameOutcome size (.error fault) (.error fault)
  | copied {copies copies' : Dictionary} {after after' : Heap} (σ : Equiv.Perm Ref)
      (hold : ∀ ref, ref.index < size → σ ref = ref) (hrenamed : Heap.Renamed σ after after')
      (hcopies : (renameEntries σ copies.entries).Perm copies'.entries) :
      SameOutcome size (.ok (copies, after)) (.ok (copies', after'))

theorem sameOutcome_of_perm (hheap : heap.Closed)
    (hentries : ∀ entry ∈ bindings.entries, entry.2.Within heap.size)
    (hperm : bindings.entries.Perm other.entries) :
    SameOutcome heap.size (bindings.snapshot limit heap) (other.snapshot limit heap) := by
  cases hcopies : copyEntries limit heap bindings.entries with
  | none =>
    have hnone : copyEntries limit heap other.entries = none := by
      have hother : ∀ entry ∈ other.entries, entry.2.Within heap.size := fun entry hmem =>
        hentries entry (hperm.mem_iff.mpr hmem)
      rw [← Option.not_isSome_iff_eq_none, isSome_copyEntries_iff hheap hentries] at hcopies
      rw [← Option.not_isSome_iff_eq_none, isSome_copyEntries_iff hheap hother]
      exact fun h => hcopies fun entry hmem => h entry (hperm.mem_iff.mp hmem)
    rw [snapshot, snapshot, hcopies, hnone]
    exact .failed _
  | some result =>
    obtain ⟨σ, copies', after', hcopies', hold, hrenamed, hsame⟩ :=
      copyEntries_perm hheap hperm (.refl heap) hheap hentries hcopies
    rw [snapshot, snapshot, hcopies, hcopies']
    exact .copied σ hold hrenamed hsame

/-! ## 4. Faithful and private -/

/-- **Copies are faithful and private.** A deep copy is a private copy of its value. There is a
snapshot of a dictionary exactly if every value of it has a deep copy. It has the names of the
dictionary with a private copy of each value, and the copies of two variables have no storage in
common. And in whatever order the dictionary hands out its entries, the outcome is the same but for
the names of the new storages. -/
theorem copies_faithful_and_private (hheap : heap.Closed) (limit : Nat) :
    (∀ v copy after, v.Within heap.size → heap.deepCopy limit v = some (copy, after) →
        heap.PrivateCopy limit after v copy) ∧
      ∀ bindings : Dictionary, (∀ entry ∈ bindings.entries, entry.2.Within heap.size) →
        ((∃ copies after, bindings.snapshot limit heap = .ok (copies, after)) ↔
            ∀ entry ∈ bindings.entries, (heap.deepCopy limit entry.2).isSome) ∧
          (∀ copies after, bindings.snapshot limit heap = .ok (copies, after) →
            List.Forall₂ (fun entry copy => copy.1 = entry.1 ∧
                heap.PrivateCopy limit after entry.2 copy.2) bindings.entries copies.entries ∧
              copies.entries.Pairwise fun first second => after.Separate first.2 second.2) ∧
          ∀ other : Dictionary, bindings.entries.Perm other.entries →
            SameOutcome heap.size (bindings.snapshot limit heap) (other.snapshot limit heap) := by
  refine ⟨fun v copy after hv hcopy => Heap.privateCopy_deepCopy hheap hv hcopy, ?_⟩
  intro bindings hentries
  refine ⟨exists_snapshot_iff hheap hentries, fun copies after hsnapshot => ?_, fun other hperm => ?_⟩
  · exact privateCopies_snapshot hheap hentries hsnapshot
  · exact sameOutcome_of_perm hheap hentries hperm

/-- Two variables with one array, in which another one stands twice, have six new storages for it. -/
theorem snapshot_of_shared_array :
    let heap : Heap := ⟨#[#[.string "a"], #[.array ⟨0⟩, .array ⟨0⟩]]⟩
    let bindings : Dictionary := ⟨[("x", .array ⟨1⟩), ("y", .array ⟨1⟩)]⟩
    ∃ copies after, bindings.snapshot 2 heap = .ok (copies, after) ∧ after.size = 8 ∧
      copies.entries.Pairwise (fun first second => after.Separate first.2 second.2) ∧
        SameOutcome 2 (bindings.snapshot 2 heap) (snapshot ⟨bindings.entries.reverse⟩ 2 heap) := by
  intro heap bindings
  have hheap : heap.Closed := Heap.closed_of_storages (by decide)
  have hentries : ∀ entry ∈ bindings.entries, entry.2.Within heap.size := by simp [bindings]; decide
  obtain ⟨-, hsnapshot⟩ := copies_faithful_and_private hheap 2
  obtain ⟨-, hprivate, horder⟩ := hsnapshot bindings hentries
  refine ⟨_, _, rfl, rfl, (hprivate _ _ rfl).2, horder _ ?_⟩
  exact (List.reverse_perm _).symm

end Dictionary

end GlyphStack
