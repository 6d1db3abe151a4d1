import GlyphStack.Proofs.Machine.Brackets

/-!
What the limit on the size of a stack keeps. It is looked at where values are pushed, and nowhere
else. For literal stacks that is enough, since pushing is the only way for them to grow. An array
may become longer than the limit: `+` joins arrays of any length, and `;` adds an item behind the
last one. So a stack that `|` opened from an array may hold more than the limit, from the start or
because `;` adds to the array while it is open.
-/

namespace GlyphStack.Machine

open Store

/-! ## 1. Where open stacks come from -/

/-- The stack has been open since `|` opened the array that it is. -/
inductive Borrowed (start : Machine) : Machine → Ref → Prop where
  | opened {machine : Machine} {below : Array Value} {ref : Ref} (hreach : Reachable start machine)
      (hunit : machine.unit? = some .openArray)
      (harray : machine.store.stack = below.push (.array ref))
      (hopened : machine.step.2.store.frames = machine.store.frames.openOne ref) :
      Borrowed start machine.step.2 ref
  | step {machine : Machine} {ref : Ref} (h : Borrowed start machine ref)
      (hopen : ref ∈ machine.step.2.store.frames.toList) : Borrowed start machine.step.2 ref
  | halt {machine : Machine} {ref : Ref} (h : Borrowed start machine ref) :
      Borrowed start { machine with halted := true } ref

/-- A stack that a step opens is the one that `[` or `|` opens, or it stands in for the only
stack. -/
theorem opened_step {machine : Machine} {ref : Ref}
    (hopen : ref ∈ machine.step.2.store.frames.toList)
    (hnew : ref ∉ machine.store.frames.toList) :
    (machine.CarriesOut .openFrame ∧ ref = machine.step.2.store.frames.current) ∨
    (machine.unit? = some .closeFrame ∧ machine.store.frames.depth = 1 ∧
      ref = machine.step.2.store.frames.current) ∨
    (machine.unit? = some .openArray ∧
      (∃ below : Array Value, machine.store.stack = below.push (.array ref)) ∧
      machine.step.2.store.frames = machine.store.frames.openOne ref) := by
  rcases step_effect machine with ⟨-, hstore, -⟩ | ⟨instruction, hunit, heffect, -⟩
  · rw [hstore] at hopen
    contradiction
  · rcases heffect.frames_cases with hsame | ⟨-, opened, hopened, hwhich⟩ | ⟨rfl, hclose⟩
    · rw [hsame] at hopen
      contradiction
    · have hmem := hopen
      rw [hopened, Frames.toList_openOne] at hmem
      rcases List.mem_append.mp hmem with hmem | hmem
      · contradiction
      · cases List.mem_singleton.mp hmem
        rcases hwhich with ⟨rfl, -⟩ | ⟨rfl, harray⟩
        · rcases step_openFrame hunit with ⟨hcontinued, -⟩ | ⟨-, hstore⟩
          · exact .inl ⟨⟨hunit, hcontinued⟩, congrArg Frames.current hopened.symm⟩
          · rw [hstore] at hopen
            contradiction
        · exact .inr (.inr ⟨hunit, harray, hopened⟩)
    · rcases hclose with hclose | ⟨honly, hsingle, -⟩
      · refine absurd ?_ hnew
        rw [Frames.toList_of_closeOne? hclose]
        exact List.mem_append_left _ hopen
      · rw [hsingle] at hopen
        refine .inr (.inl ⟨hunit, Frames.closeOne?_eq_none_iff.mp honly, ?_⟩)
        rw [hsingle]
        exact List.mem_singleton.mp hopen

/-- Every open stack is literal, or `|` opened it. -/
theorem Reachable.literal_or_borrowed {start machine : Machine} (h : Reachable start machine)
    {ref : Ref} (hopen : ref ∈ machine.store.frames.toList) :
    Literal start machine ref ∨ Borrowed start machine ref := by
  induction h generalizing ref with
  | refl => exact .inl (.initial hopen)
  | halt _ ih => exact (ih hopen).imp .halt .halt
  | @step machine hreach ih =>
    by_cases hmem : ref ∈ machine.store.frames.toList
    · exact (ih hmem).imp (fun h => .step h hopen) fun h => .step h hopen
    · rcases opened_step hopen hmem with ⟨hopened, rfl⟩ | ⟨hunit, honly, rfl⟩ |
        ⟨hunit, ⟨below, harray⟩, hopened⟩
      · exact .inl (.opened hreach hopened)
      · exact .inl (.replaced hreach hunit honly)
      · exact .inr (.opened hreach hunit harray hopened)

/-! ## 2. Literal stacks -/

/-- What `[` opens is empty. -/
theorem CarriesOut.size_read_le {machine : Machine} (h : machine.CarriesOut .openFrame) :
    (machine.step.2.store.heap.read machine.step.2.store.frames.current).size ≤
      machine.limits.stackSize := by
  have hempty : machine.step.2.store.heap.read machine.step.2.store.frames.current = #[] := by
    rw [h.store_eq]
    exact read_adding_self machine.store #[]
  rw [hempty]
  exact Nat.zero_le _

/-- What stands in for the only stack holds nothing but the array that was closed, and not even
that if there is no room. -/
theorem size_read_le_of_closeFrame {machine : Machine} (hunit : machine.unit? = some .closeFrame)
    (honly : machine.store.frames.depth = 1) :
    (machine.step.2.store.heap.read machine.step.2.store.frames.current).size ≤
      machine.limits.stackSize := by
  obtain ⟨store, hdrop, hstore⟩ := step_closeFrame hunit
  have hempty : store.stack = #[] := by
    cases hdrop with
    | inner hclose =>
      rw [Frames.closeOne?_eq_none_iff.mpr honly] at hclose
      contradiction
    | only => exact read_adding_self machine.store #[]
  have hfits : store.stack.size ≤ machine.limits.stackSize := by
    rw [hempty]
    exact Nat.zero_le _
  rcases hstore with ⟨hroom, hstore⟩ | ⟨-, hstore⟩
  · rw [hstore]
    refine size_read_mapStack_le hfits fun _ => ?_
    rw [Array.size_push]
    exact hroom
  · rw [hstore]
    exact hfits

/-- A step makes a stack that was there longer than the limit only by `;`. -/
theorem size_read_step_le {machine : Machine} {ref : Ref}
    (hthere : ref.index < machine.store.heap.size)
    (hset : machine.unit? = some .itemSet → ¬ machine.store.ChangesItemsOf ref .itemSet) :
    (machine.step.2.store.heap.read ref).size ≤
      max machine.limits.stackSize (machine.store.heap.read ref).size := by
  rcases step_effect machine with ⟨-, hstore, -⟩ | ⟨instruction, hunit, heffect, -⟩
  · rw [hstore]
    exact Nat.le_max_right _ _
  · exact heffect.size_read_le hthere fun h => hset (h ▸ hunit)

/-- No literal stack holds more than the limit, if none did at the start. -/
theorem Literal.size_read_le {start machine : Machine} {ref : Ref}
    (h : Literal start machine ref) (hstart : start.store.Pristine)
    (hfits : ∀ ref ∈ start.store.frames.toList,
      (start.store.heap.read ref).size ≤ start.limits.stackSize) :
    (machine.store.heap.read ref).size ≤ machine.limits.stackSize := by
  induction h with
  | initial hmem => exact hfits _ hmem
  | @opened machine hreach hopen =>
    rw [(program_limits_step machine).2]
    exact hopen.size_read_le
  | @replaced machine hreach hunit honly =>
    rw [(program_limits_step machine).2]
    exact size_read_le_of_closeFrame hunit honly
  | @step machine ref h _ ih =>
    have hunaliased := h.unaliased hstart
    have hstep := size_read_step_le hunaliased.there fun _ hchanges =>
      hunaliased.storages _ hchanges.mem
    rw [(program_limits_step machine).2]
    exact Nat.le_trans hstep (Nat.max_le.mpr ⟨Nat.le_refl _, ih⟩)
  | halt _ ih => exact ih

/-! ## 3. Stacks beyond the limit -/

/-- A step that leaves an open stack beyond the limit found it there, or opened it with `|`, or
changed its items with `;`. -/
theorem of_limit_lt_size_read_step {machine : Machine} {ref : Ref} (hclosed : machine.store.Closed)
    (hopen : ref ∈ machine.step.2.store.frames.toList)
    (hlong : machine.limits.stackSize < (machine.step.2.store.heap.read ref).size) :
    (ref ∈ machine.store.frames.toList ∧
      machine.limits.stackSize < (machine.store.heap.read ref).size) ∨
    (machine.unit? = some .openArray ∧
      ∃ below : Array Value, machine.store.stack = below.push (.array ref)) ∨
    (machine.unit? = some .itemSet ∧ machine.store.ChangesItemsOf ref .itemSet) := by
  by_cases hmem : ref ∈ machine.store.frames.toList
  · by_cases hset : machine.unit? = some .itemSet ∧ machine.store.ChangesItemsOf ref .itemSet
    · exact .inr (.inr hset)
    · have hstep := size_read_step_le (hclosed.frames ref hmem) fun hunit hchanges =>
        hset ⟨hunit, hchanges⟩
      refine .inl ⟨hmem, ?_⟩
      omega
  · rcases opened_step hopen hmem with ⟨hopened, rfl⟩ | ⟨hunit, honly, rfl⟩ | ⟨hunit, harray, -⟩
    · exact absurd hlong (Nat.not_lt.mpr hopened.size_read_le)
    · exact absurd hlong (Nat.not_lt.mpr (size_read_le_of_closeFrame hunit honly))
    · exact .inr (.inl ⟨hunit, harray⟩)

/-- A machine with a host's variables starts under its limits on one empty stack. -/
theorem start_of_withBindings {host : Heap} {code : String} {limits : Limits}
    {bindings : Dictionary} {start : Machine}
    (hok : ((onHeap host code).withLimits limits).withBindings bindings = .ok start) :
    start.limits = limits ∧ start.store.frames.toList = [⟨host.size⟩] ∧
      start.store.heap.read ⟨host.size⟩ = #[] := by
  obtain ⟨copies, heap, hsnapshot, rfl⟩ := withBindings_eq_ok_iff.mp hok
  obtain ⟨hapart, -⟩ := (Heap.Apart.refl _).snapshot hsnapshot
  have hthere : host.size < (host.alloc #[]).2.size := by simp
  exact ⟨rfl, rfl, (hapart.read_eq _ hthere).trans (Heap.read_alloc_self host #[])⟩

/-- **Only stacks that `|` opened can hold more than the limit.** However a machine was made with
a host's variables under the limits, and however often it was stepped, its literal stacks keep the
limit. So a stack beyond it was opened from an array; it was longer before, or the unit that made it
so is the `|` that opens it or a `;` that changes its items. -/
theorem borrowed_of_limit_lt_size {host : Heap} {code : String} {limits : Limits}
    {bindings : Dictionary} {start machine : Machine} (hhost : host.Closed)
    (hok : ((onHeap host code).withLimits limits).withBindings bindings = .ok start)
    (hreach : Reachable start machine) :
    (∀ ref, Literal start machine ref →
      (machine.store.heap.read ref).size ≤ limits.stackSize) ∧
    (∀ ref ∈ machine.store.frames.toList, limits.stackSize < (machine.store.heap.read ref).size →
      Borrowed start machine ref) ∧
    ∀ ref ∈ machine.step.2.store.frames.toList,
      limits.stackSize < (machine.step.2.store.heap.read ref).size →
      (ref ∈ machine.store.frames.toList ∧
        limits.stackSize < (machine.store.heap.read ref).size) ∨
      (machine.unit? = some .openArray ∧
        ∃ below : Array Value, machine.store.stack = below.push (.array ref)) ∨
      (machine.unit? = some .itemSet ∧ machine.store.ChangesItemsOf ref .itemSet) := by
  have hpristine : start.store.Pristine :=
    Hosted.pristine (.withBindings (.withLimits (.onHeap hhost) limits) hok)
  obtain ⟨hstart, hframes, hempty⟩ := start_of_withBindings hok
  have hlimits : machine.limits = limits := hreach.program_limits.2.trans hstart
  have hfits : ∀ ref ∈ start.store.frames.toList,
      (start.store.heap.read ref).size ≤ start.limits.stackSize := by
    intro ref hmem
    rw [hframes] at hmem
    rw [List.mem_singleton.mp hmem, hempty]
    exact Nat.zero_le _
  have hliteral (ref : Ref) (h : Literal start machine ref) :
      (machine.store.heap.read ref).size ≤ limits.stackSize := by
    rw [← hlimits]
    exact h.size_read_le hpristine hfits
  refine ⟨hliteral, ?_, ?_⟩
  · intro ref hopen hlong
    rcases hreach.literal_or_borrowed hopen with h | h
    · exact absurd hlong (Nat.not_lt.mpr (hliteral ref h))
    · exact h
  · intro ref hopen hlong
    rw [← hlimits] at hlong ⊢
    exact of_limit_lt_size_read_step (hreach.closed hpristine.closed) hopen hlong

/-- The sum of two arrays that fit does not, and it is open because `|` opened it. -/
theorem borrowed_sum_of_arrays :
    let start := (onHeap .empty "[a b][c d]+|").withLimits { stackSize := 2 }
    let machine := (start.runUpTo 12).2
    (machine.store.heap.read ⟨3⟩).size = 4 ∧ Borrowed start machine ⟨3⟩ := by
  intro start machine
  have hok : start.withBindings .empty = .ok start := rfl
  have hsize : (machine.store.heap.read ⟨3⟩).size = 4 := by decide +kernel
  refine ⟨hsize, ?_⟩
  refine (borrowed_of_limit_lt_size Heap.closed_empty hok (reachable_runUpTo 12 start)).2.1 ⟨3⟩
    (by decide +kernel) ?_
  rw [hsize]
  decide

/-- So the limit does not hold of every open stack. -/
theorem stack_beyond_limit :
    let limits : Limits := { stackSize := 2 }
    ∃ start machine, ((onHeap .empty "[a b][c d]+|").withLimits limits).withBindings .empty =
        .ok start ∧ Reachable start machine ∧
      ∃ ref ∈ machine.store.frames.toList, limits.stackSize < (machine.store.heap.read ref).size :=
  ⟨_, _, rfl, reachable_runUpTo 12 _, ⟨3⟩, by decide +kernel, by decide +kernel⟩

end GlyphStack.Machine
