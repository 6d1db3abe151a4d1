import GlyphStack.Proofs.Machine.Effect

/-!
Programs do not touch their host. A host gives a program a snapshot of its variables, so the store a
program starts from is apart from the host's heap, and every unit keeps it apart: the values that a
unit comes by are in storages beyond the host's, new storages are beyond them, and only storages
that were found on a stack are changed. Main statement: whatever is run, and
wherever it is left, the storages of the host read as they did, and none of them can be come to
(section 3).
-/

namespace GlyphStack

open Store

variable {host : Heap}

/-! ## 1. Units -/

namespace Store.Apart

variable {limits : Limits} {base after : Store} {instruction : Instruction} {v : Value}

/-- What a unit can come by is beyond the host. -/
theorem holds (h : base.Apart host) (hv : base.Holds v) : v.Beyond host.size := by
  cases hv with
  | plain hv => exact Value.beyond_of_kind hv _
  | item hreach hv => exact h.heap.beyond _ (h.reaches hreach) v hv
  | binding hentry => exact h.bindings _ hentry

/-- So is everything that it can have in hand. -/
theorem offers (h : base.Apart host) (hv : base.Offers after v) : v.Beyond host.size := by
  cases hv with
  | held hv => exact h.holds hv
  | new hnew hthere => exact Nat.le_trans h.heap.size_le hnew

/-- The stacks that a unit leaves open are beyond the host. -/
theorem frames_of_effect (h : base.Apart host) (heffect : Effect limits base instruction after) :
    ∀ ref ∈ after.frames.toList, host.size ≤ ref.index := by
  intro ref hmem
  rcases heffect.offers_frames hmem with hmem | hoffered
  · exact h.frames ref hmem
  · exact h.offers hoffered

/-- Units keep a store apart from the host. -/
theorem of_effect (h : base.Apart host) (heffect : Effect limits base instruction after) :
    after.Apart host := by
  have hframes := h.frames_of_effect heffect
  have hother {ref : Ref} (hthere : ref.index < host.size) {frames : Frames}
      (hbeyond : ∀ ref ∈ frames.toList, host.size ≤ ref.index) : ref ≠ frames.current := by
    rintro rfl
    exact Nat.not_le.mpr hthere (hbeyond _ frames.current_mem_toList)
  refine ⟨⟨Nat.le_trans h.heap.size_le heffect.size_le, ?_, ?_⟩, hframes, ?_⟩
  · intro ref hthere
    rw [← h.heap.read_eq ref hthere]
    refine heffect.read_eq (Nat.lt_of_lt_of_le hthere h.heap.size_le) (hother hthere h.frames)
      (fun _ => hother hthere hframes) fun hchanges => ?_
    exact Nat.not_le.mpr hthere (h.stack _ hchanges.mem)
  · intro ref hle v hv
    rcases heffect.offers hv with hv | hv | ⟨-, rfl⟩
    · exact h.heap.beyond ref hle v hv
    · exact h.offers hv
    · exact h.current
  · intro entry hentry
    exact h.holds (heffect.holds hentry)

end Store.Apart

namespace Machine

/-! ## 2. Runs -/

theorem Reachable.apart {start machine : Machine} (h : Reachable start machine)
    (hstart : start.store.Apart host) : machine.store.Apart host :=
  h.invariant hstart fun heffect hbase => hbase.of_effect heffect

/-- A snapshot of a host's variables leaves the store apart from the host. -/
theorem apart_withBindings {machine start : Machine} {bindings : Dictionary}
    (h : machine.store.Apart host) (hok : machine.withBindings bindings = .ok start) :
    start.store.Apart host := by
  obtain ⟨copies, heap, hsnapshot, rfl⟩ := withBindings_eq_ok_iff.mp hok
  obtain ⟨hheap, hcopies⟩ := h.heap.snapshot hsnapshot
  exact ⟨hheap, h.frames, hcopies⟩

/-! ## 3. The host -/

/-- The host's storages read as they did, its values hold what they held, and none of its storages
can be come to from the open stacks and the variables. -/
structure Isolated (host : Heap) (store : Store) : Prop where
  size_le : host.size ≤ store.heap.size
  read_eq : ∀ ref, ref.index < host.size → store.heap.read ref = host.read ref
  values : ∀ v, (∀ ref, host.Reaches v ref → ref.index < host.size) →
    ∀ ref, store.heap.Reaches v ref ↔ host.Reaches v ref
  reaches : ∀ ref, store.Reaches ref → host.size ≤ ref.index

theorem isolated_of_apart {store : Store} (h : store.Apart host) : Isolated host store :=
  ⟨h.heap.size_le, h.heap.read_eq, fun _ hclosed _ => h.heap.reaches_iff hclosed, fun _ => h.reaches⟩

/-- **Programs do not touch their host.** A machine is made on the host's heap, under any limits and
with the host's variables, and stepped any number of times: it has changed no storage that was there
before, and it can come to none. The same holds of what `eval?` leaves, and of the values that it
answers. The host's dictionary is a value, so with its storages it stays what it was. -/
theorem host_isolated (host : Heap) (code : String) (bindings : Dictionary) :
    (∀ limits start machine,
      ((onHeap host code).withLimits limits).withBindings bindings = .ok start →
      Reachable start machine → Isolated host machine.store) ∧
    ∀ fuel result store, eval? fuel host code bindings = some (result, store) →
      Isolated host store ∧ ∀ stack, result = .ok stack → ∀ v ∈ stack, ∀ ref,
        store.heap.Reaches v ref → host.size ≤ ref.index := by
  constructor
  · intro limits start machine hok hreach
    exact isolated_of_apart (hreach.apart (apart_withBindings (apart_onHeap host) hok))
  · intro fuel result store heval
    unfold eval? at heval
    split at heval
    · cases heval
      exact ⟨isolated_of_apart (apart_onHeap host), fun _ hstack => by contradiction⟩
    · rename_i start hok
      obtain ⟨⟨ending, machine⟩, hrun, hresult⟩ := Option.map_eq_some_iff.mp heval
      cases hresult
      have hapart := (reachable_run? hrun).apart (apart_withBindings (apart_onHeap host) hok)
      refine ⟨isolated_of_apart hapart, fun stack hstack v hmem ref hreach => ?_⟩
      cases ending with
      | error failure => contradiction
      | ok =>
        cases hstack
        exact hapart.heap.reaches (hapart.stack v hmem) hreach

/-- The host's variable is an array that holds another one twice. The program adds to its copy. -/
theorem isolated_of_shared_array :
    let host : Heap := ⟨#[#[.string "a"], #[.array ⟨0⟩, .array ⟨0⟩]]⟩
    ∃ stack store,
      eval? 10 host "x^|'b" ⟨[("x", .array ⟨1⟩)]⟩ = some (.ok stack, store) ∧ stack.size = 3 ∧
        store.heap.read ⟨1⟩ = #[.array ⟨0⟩, .array ⟨0⟩] ∧
          ∀ v ∈ stack, ∀ ref, store.heap.Reaches v ref → 2 ≤ ref.index := by
  intro host
  have heval : (eval? 10 host "x^|'b" ⟨[("x", .array ⟨1⟩)]⟩).map
      (fun answer => answer.1.toOption.map Array.size) = some (some 3) := by decide +kernel
  obtain ⟨⟨result, store⟩, heval, hsize⟩ := Option.map_eq_some_iff.mp heval
  cases result with
  | error failure => simp [Except.toOption] at hsize
  | ok stack =>
    obtain ⟨hisolated, hstack⟩ := (host_isolated host _ _).2 _ _ _ heval
    refine ⟨stack, store, heval, by simpa [Except.toOption] using hsize, ?_, hstack stack rfl⟩
    exact hisolated.read_eq ⟨1⟩ (by decide)

end Machine

end GlyphStack
