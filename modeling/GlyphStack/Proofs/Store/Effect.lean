import GlyphStack.Program.Instruction
import GlyphStack.Proofs.Store.Apart
import GlyphStack.Proofs.Store.Items

/-!
What one unit can have done to a store. `Worked` lists the changes that instructions make to the
storages, one after the other: values come off the current stack or go onto it, a storage is added,
and `;` and `$` change the items of the array that they took. `Effect` adds what an instruction can
do last: send a text out, name a value, open a stack or close one. Nothing is said here about which
of these steps are taken; what is said is that there are no others, and what each of them needs: how
much room there was for a push, and where the value that was pushed came from.

Everything a store keeps over a unit is read off these two lists by one induction each: which
storages read as before (`Effect.read_eq`), which references can turn up where
(`Effect.offers`), and how long a storage can have become (`Effect.size_read_le`).
-/

namespace GlyphStack

/-! ## 1. What a unit starts from -/

namespace Store

/-- The store without the top `n` values of the current stack. -/
def taking (store : Store) (n : Nat) : Store :=
  store.mapStack fun items => items.shrink (items.size - n)

/-- The store with one more storage. -/
def adding (store : Store) (items : Array Value) : Store :=
  { store with heap := (store.heap.alloc items).2 }

/-- The store with another storage's items changed. -/
def changing (store : Store) (ref : Ref) (change : Array Value → Array Value) : Store :=
  { store with heap := store.heap.update ref change }

/-- A value that a unit can come by in the store: it is no array, or it is an item of a storage that
one comes to from the open stacks and the variables, or a variable has it. -/
inductive Holds (store : Store) : Value → Prop where
  | plain {v : Value} (h : v.kind ≠ .array) : store.Holds v
  | item {ref : Ref} {v : Value} (hreach : store.Reaches ref) (h : v ∈ store.heap.read ref) :
      store.Holds v
  | binding {entry : String × Value} (h : entry ∈ store.bindings.entries) : store.Holds entry.2

/-- A value that a unit which started on `base` can have in hand at `store`: one that `base` holds,
or a new array. -/
inductive Offers (base store : Store) : Value → Prop where
  | held {v : Value} (h : base.Holds v) : base.Offers store v
  | new {ref : Ref} (hnew : base.heap.size ≤ ref.index) (hthere : ref.index < store.heap.size) :
      base.Offers store (.array ref)

/-- The instruction takes this array off the stack to change its items. -/
inductive ChangesItemsOf (store : Store) (ref : Ref) : Instruction → Prop where
  | set {below : Array Value} {index v : Value}
      (h : store.stack = below ++ #[.array ref, index, v]) : store.ChangesItemsOf ref .itemSet
  | delete {below : Array Value} {index : Value} (h : store.stack = below ++ #[.array ref, index]) :
      store.ChangesItemsOf ref .itemDelete

/-- The instruction takes an array off the stack to change its items, and the index that it takes off
with it is the array itself. -/
inductive IndexesItself (store : Store) : Instruction → Prop where
  | set {below : Array Value} {ref : Ref} {v : Value}
      (h : store.stack = below ++ #[.array ref, .array ref, v]) : store.IndexesItself .itemSet
  | delete {below : Array Value} {ref : Ref}
      (h : store.stack = below ++ #[.array ref, .array ref]) : store.IndexesItself .itemDelete

/-- The current stack was closed, and if it was the only one, a new empty one took its place. -/
inductive Drops (base : Store) : Store → Prop where
  | inner {outer : Frames} (h : base.frames.closeOne? = some outer) :
      base.Drops { base with frames := outer }
  | only (h : base.frames.closeOne? = none) :
      base.Drops { base.adding #[] with frames := .single ⟨base.heap.size⟩ }

/-- The current stack is open no more: those below it stayed open, or it was the only one and a new
one took its place. -/
def ClosesTo (base after : Store) : Prop :=
  base.frames.closeOne? = some after.frames ∨
  base.frames.closeOne? = none ∧ after.frames = .single ⟨base.heap.size⟩ ∧
    base.heap.size < after.heap.size

/-! ## 2. The two lists -/

/-- Changes to storages that a unit makes one after the other, with the open stacks and the
variables as they were. -/
inductive Worked (limits : Limits) (base : Store) : Instruction → Store → Prop where
  | refl {instruction : Instruction} : Worked limits base instruction base
  | take {instruction : Instruction} {store : Store} (h : Worked limits base instruction store)
      (n : Nat) : Worked limits base instruction (store.taking n)
  | push {instruction : Instruction} {store : Store} {v : Value}
      (h : Worked limits base instruction store) (hv : base.Offers store v)
      (hroom : store.stack.size < limits.stackSize) :
      Worked limits base instruction (store.mapStack (·.push v))
  | append {instruction : Instruction} {store : Store} {vs : Array Value}
      (h : Worked limits base instruction store) (hvs : ∀ v ∈ vs, base.Holds v)
      (hroom : store.stack.size + vs.size ≤ limits.stackSize) :
      Worked limits base instruction (store.mapStack (· ++ vs))
  | add {instruction : Instruction} {store : Store} {items : Array Value}
      (h : Worked limits base instruction store) (hitems : ∀ v ∈ items, base.Holds v) :
      Worked limits base instruction (store.adding items)
  | set {store : Store} {below : Array Value} {ref : Ref} {index v : Value}
      (h : Worked limits base .itemSet store)
      (hstack : base.stack = below ++ #[.array ref, index, v]) (n : Number.Truncated) :
      Worked limits base .itemSet (store.changing ref (assignItem · n v))
  | delete {store : Store} {below : Array Value} {ref : Ref} {index : Value}
      (h : Worked limits base .itemDelete store)
      (hstack : base.stack = below ++ #[.array ref, index]) (n : Number.Truncated) :
      Worked limits base .itemDelete (store.changing ref (removeItem · n))

/-- What a unit can have led to, whether it was carried out or failed on the way. -/
inductive Effect (limits : Limits) (base : Store) : Instruction → Store → Prop where
  | worked {instruction : Instruction} {store : Store} (h : Worked limits base instruction store) :
      Effect limits base instruction store
  /-- A text is sent out. -/
  | sent {instruction : Instruction} {store : Store} (h : Worked limits base instruction store)
      (text : String) :
      Effect limits base instruction { store with output := store.output.push text }
  /-- The value below the name is stored under the text of the name. -/
  | named {below : Array Value} {name : Value} (hname : base.stack = below.push name) :
      Effect limits base .store
        { base.taking 1 with
          bindings := base.bindings.put ((base.taking 1).heap.render limits.nesting name)
            ((base.taking 1).stack.back?.getD .absent) }
  /-- A new empty stack is opened. -/
  | openedNew (hdepth : base.frames.depth < limits.frameDepth) :
      Effect limits base .openFrame
        { base.adding #[] with frames := base.frames.openOne ⟨base.heap.size⟩ }
  /-- The top array is opened. -/
  | openedArray {below : Array Value} {ref : Ref} (harray : base.stack = below.push (.array ref))
      (hdepth : base.frames.depth < limits.frameDepth) :
      Effect limits base .openArray { base.taking 1 with frames := base.frames.openOne ref }
  /-- The current stack is closed, with no room for it on the one that becomes current. -/
  | closed {store : Store} (hdrop : base.Drops store) : Effect limits base .closeFrame store
  /-- The current stack is closed and goes as an array onto the one that becomes current. -/
  | closedInto {store : Store} (hdrop : base.Drops store)
      (hroom : store.stack.size < limits.stackSize) :
      Effect limits base .closeFrame (store.mapStack (·.push (.array base.frames.current)))

/-! ## 3. Changes to storages -/

section

variable {limits : Limits} {base store after : Store} {instruction : Instruction}

/-- A change to one storage changes no other. -/
theorem read_changing_of_ne (store : Store) {ref other : Ref} (h : other ≠ ref)
    (change : Array Value → Array Value) :
    (store.changing ref change).heap.read other = store.heap.read other :=
  Heap.read_update_of_ne change h

/-- What is on the current stack, it has a storage for. -/
theorem current_lt_of_stack_eq {below operands : Array Value}
    (h : base.stack = below ++ operands) (hsome : 0 < operands.size) :
    base.frames.current.index < base.heap.size := by
  refine Nat.lt_of_not_le fun hle => ?_
  have hempty : base.stack = #[] := Heap.read_of_le hle
  have hsize := congrArg Array.size (hempty.symm.trans h)
  simp at hsize
  omega

/-- What stands on the current stack is held. -/
theorem holds_of_mem_stack {v : Value} (h : v ∈ base.stack) : base.Holds v :=
  .item (.frame base.frames.current_mem_toList (.self _)) h

theorem holds_of_stack_eq {below : Array Value} {v : Value} (h : base.stack = below.push v) :
    base.Holds v := by
  have hmem : v ∈ base.stack := by simp [h]
  exact holds_of_mem_stack hmem

/-- The array whose items are changed stood on the stack. -/
theorem ChangesItemsOf.mem {ref : Ref} (h : store.ChangesItemsOf ref instruction) : .array ref ∈ store.stack := by
  cases h with
  | set h => simp [h]
  | delete h => simp [h]

/-- One comes to an array that is held. -/
theorem reaches_of_holds {ref : Ref} (h : base.Holds (.array ref)) : base.Reaches ref := by
  generalize hv : Value.array ref = v at h
  cases h with
  | plain h =>
    subst hv
    simp [Value.kind] at h
  | item hreach h =>
    subst hv
    cases hreach with
    | frame hframe hreach => exact .frame hframe (hreach.item_of_mem h)
    | binding hentry hreach => exact .binding hentry (hreach.item_of_mem h)
  | binding hentry =>
    refine .binding hentry ?_
    rw [← hv]
    exact .self ref

/-- The storage that was added holds its items. -/
theorem read_adding_self (store : Store) (items : Array Value) :
    (store.adding items).heap.read ⟨store.heap.size⟩ = items :=
  Heap.read_alloc_self store.heap items

theorem Offers.mono {v : Value} (h : base.Offers store v)
    (hsize : store.heap.size ≤ after.heap.size) : base.Offers after v := by
  cases h with
  | held h => exact .held h
  | new hnew hthere => exact .new hnew (Nat.lt_of_lt_of_le hthere hsize)

/-- If a change to a storage puts nothing into it but values in hand, then every storage holds
what it held and values in hand. -/
theorem offers_changing {ref : Ref} {change : Array Value → Array Value}
    (h : ∀ {other v}, v ∈ store.heap.read other → v ∈ base.heap.read other ∨ base.Offers store v)
    (hchange : ∀ v ∈ change (store.heap.read ref),
      v ∈ store.heap.read ref ∨ base.Offers store v) {other : Ref} {v : Value}
    (hv : v ∈ (store.changing ref change).heap.read other) :
    v ∈ base.heap.read other ∨ base.Offers (store.changing ref change) v := by
  have hsize : store.heap.size ≤ (store.changing ref change).heap.size :=
    Nat.le_of_eq (Heap.size_update _ _ _).symm
  have hcases : v ∈ store.heap.read other ∨ base.Offers store v := by
    rcases Heap.mem_read_update hv with hv | ⟨rfl, hv⟩
    · exact .inl hv
    · exact hchange v hv
  rcases hcases with hv | hv
  · exact (h hv).imp_right fun hv => hv.mono hsize
  · exact .inr (hv.mono hsize)

theorem offers_mapStack {change : Array Value → Array Value}
    (h : ∀ {other v}, v ∈ store.heap.read other → v ∈ base.heap.read other ∨ base.Offers store v)
    (hchange : ∀ v ∈ change store.stack, v ∈ store.stack ∨ base.Offers store v) {other : Ref}
    {v : Value} (hv : v ∈ (store.mapStack change).heap.read other) :
    v ∈ base.heap.read other ∨ base.Offers (store.mapStack change) v := by
  have hv' : v ∈ (store.changing store.frames.current change).heap.read other := hv
  exact offers_changing h hchange hv'

/-- A storage is no longer after a change than the change makes it. -/
theorem size_read_changing_le {ref other : Ref} {change : Array Value → Array Value} {bound : Nat}
    (h : (store.heap.read other).size ≤ bound)
    (hchange : other = ref → (change (store.heap.read ref)).size ≤ bound) :
    ((store.changing ref change).heap.read other).size ≤ bound := by
  by_cases hother : other = ref
  · subst hother
    rcases Nat.lt_or_ge other.index store.heap.size with hlt | hge
    · rw [changing, Heap.read_update_self change hlt]
      exact hchange rfl
    · rw [changing, Heap.read_of_le ((Heap.size_update _ _ _).symm ▸ hge)]
      exact Nat.zero_le _
  · rw [read_changing_of_ne store hother]
    exact h

theorem size_read_mapStack_le {other : Ref} {change : Array Value → Array Value} {bound : Nat}
    (h : (store.heap.read other).size ≤ bound)
    (hchange : other = store.frames.current → (change store.stack).size ≤ bound) :
    ((store.mapStack change).heap.read other).size ≤ bound := by
  have hsize : ((store.changing store.frames.current change).heap.read other).size ≤ bound :=
    size_read_changing_le h hchange
  exact hsize

namespace Worked

theorem adding_empty : Worked limits base instruction (base.adding #[]) :=
  .add .refl (by simp)

theorem frames_eq (h : Worked limits base instruction store) : store.frames = base.frames := by
  induction h with
  | refl => rfl
  | take _ _ ih | push _ _ _ ih | append _ _ _ ih | add _ _ ih | set _ _ _ ih | delete _ _ _ ih =>
    exact ih

theorem bindings_eq (h : Worked limits base instruction store) :
    store.bindings = base.bindings := by
  induction h with
  | refl => rfl
  | take _ _ ih | push _ _ _ ih | append _ _ _ ih | add _ _ ih | set _ _ _ ih | delete _ _ _ ih =>
    exact ih

/-- No storage is given up. -/
theorem size_le (h : Worked limits base instruction store) :
    base.heap.size ≤ store.heap.size := by
  induction h with
  | refl => exact Nat.le_refl _
  | take _ _ ih | push _ _ _ ih | append _ _ _ ih | set _ _ _ ih | delete _ _ _ ih =>
    exact Nat.le_trans ih (Nat.le_of_eq (Heap.size_update _ _ _).symm)
  | add _ _ ih =>
    rw [adding, Heap.size_alloc]
    exact Nat.le_succ_of_le ih

/-- Changing the current stack leaves the storages alone that are not the current stack. -/
theorem read_mapStack_eq (h : Worked limits base instruction store) {ref : Ref}
    (hcurrent : ref ≠ base.frames.current) (change : Array Value → Array Value) :
    (store.mapStack change).heap.read ref = store.heap.read ref :=
  read_mapStack_of_ne change (h.frames_eq.symm ▸ hcurrent)

/-- Only the current stack and the array whose items are changed can read differently. -/
theorem read_eq (h : Worked limits base instruction store) {ref : Ref}
    (hthere : ref.index < base.heap.size) (hcurrent : ref ≠ base.frames.current)
    (hchange : ¬ base.ChangesItemsOf ref instruction) :
    store.heap.read ref = base.heap.read ref := by
  induction h with
  | refl => rfl
  | take h _ ih | push h _ _ ih | append h _ _ ih =>
    exact (h.read_mapStack_eq hcurrent _).trans (ih hchange)
  | add h _ ih =>
    exact (Heap.read_alloc_of_lt _ (Nat.lt_of_lt_of_le hthere h.size_le)).trans (ih hchange)
  | set h hitems _ ih =>
    refine (read_changing_of_ne _ ?_ _).trans (ih hchange)
    rintro rfl
    exact hchange (.set hitems)
  | delete h hitems _ ih =>
    refine (read_changing_of_ne _ ?_ _).trans (ih hchange)
    rintro rfl
    exact hchange (.delete hitems)

/-- What stands in a storage stood there before, or it was held, or it is a new array. -/
theorem offers (h : Worked limits base instruction store) {ref : Ref} {v : Value}
    (hv : v ∈ store.heap.read ref) : v ∈ base.heap.read ref ∨ base.Offers store v := by
  induction h generalizing ref v with
  | refl => exact .inl hv
  | take h _ ih =>
    unfold taking at hv ⊢
    refine offers_mapStack ih (fun w hw => ?_) hv
    exact .inl (mem_of_mem_shrink hw)
  | push h hpushed _ ih =>
    refine offers_mapStack ih (fun w hw => ?_) hv
    rcases Array.mem_push.mp hw with hw | rfl
    · exact .inl hw
    · exact .inr hpushed
  | append h hvs _ ih =>
    refine offers_mapStack ih (fun w hw => ?_) hv
    exact (Array.mem_append.mp hw).imp_right fun hw => .held (hvs w hw)
  | @add _ store items h hitems ih =>
    have hsize : store.heap.size ≤ (store.adding items).heap.size := by
      rw [adding, Heap.size_alloc]
      exact Nat.le_succ _
    rcases Heap.mem_read_alloc hv with hv | hv
    · exact (ih hv).imp_right fun hv => hv.mono hsize
    · exact .inr (.held (hitems v hv))
  | set h hstack _ ih =>
    refine offers_changing ih (fun w hw => ?_) hv
    rcases mem_assignItem hw with hw | rfl
    · exact .inl hw
    · have hmem : w ∈ base.stack := by simp [hstack]
      exact .inr (.held (holds_of_mem_stack hmem))
  | delete h _ _ ih =>
    refine offers_changing ih (fun w hw => ?_) hv
    exact .inl (mem_of_mem_removeItem hw)

/-- A storage that was there grows beyond the limit only if `;` adds to it. -/
theorem size_read_le (h : Worked limits base instruction store) {ref : Ref}
    (hthere : ref.index < base.heap.size)
    (hset : instruction = .itemSet → ¬ base.ChangesItemsOf ref .itemSet) :
    (store.heap.read ref).size ≤ max limits.stackSize (base.heap.read ref).size := by
  induction h with
  | refl => exact Nat.le_max_right _ _
  | take h n ih =>
    refine size_read_mapStack_le (ih hset) ?_
    rintro rfl
    exact Nat.le_trans (by simp [stack]) (ih hset)
  | push h _ hroom ih =>
    refine size_read_mapStack_le (ih hset) fun _ => ?_
    rw [Array.size_push]
    omega
  | append h _ hroom ih =>
    refine size_read_mapStack_le (ih hset) fun _ => ?_
    rw [Array.size_append]
    omega
  | add h _ ih =>
    rw [adding, Heap.read_alloc_of_lt _ (Nat.lt_of_lt_of_le hthere h.size_le)]
    exact ih hset
  | set h hstack _ ih =>
    refine size_read_changing_le (ih hset) ?_
    rintro rfl
    exact absurd (.set hstack) (hset rfl)
  | delete h _ n ih =>
    refine size_read_changing_le (ih hset) ?_
    rintro rfl
    exact Nat.le_trans (size_removeItem_le _ n) (ih hset)

end Worked

/-! ## 4. Closing a stack -/

namespace Drops

theorem bindings_eq (h : base.Drops store) : store.bindings = base.bindings := by
  cases h <;> rfl

theorem closesTo (h : base.Drops store) : base.ClosesTo store := by
  cases h with
  | inner hclose => exact .inl hclose
  | only hclose => exact .inr ⟨hclose, rfl, by simp [adding]⟩

theorem size_le (h : base.Drops store) : base.heap.size ≤ store.heap.size := by
  cases h with
  | inner => exact Nat.le_refl _
  | only =>
    rw [adding, Heap.size_alloc]
    exact Nat.le_succ _

/-- Closing a stack changes no storage. -/
theorem read_eq (h : base.Drops store) (ref : Ref) :
    store.heap.read ref = base.heap.read ref := by
  cases h with
  | inner => rfl
  | only => exact Heap.read_alloc_empty base.heap ref

end Drops

/-! ## 5. What a unit leaves -/

namespace Effect

/-- The open stacks change only where a stack is opened or closed. -/
theorem frames_cases (h : Effect limits base instruction after) :
    after.frames = base.frames ∨
    (base.frames.depth < limits.frameDepth ∧ ∃ ref, after.frames = base.frames.openOne ref ∧
      (instruction = .openFrame ∧ ref = ⟨base.heap.size⟩ ∧ ref.index < after.heap.size ∨
        instruction = .openArray ∧ ∃ below : Array Value, base.stack = below.push (.array ref))) ∨
    (instruction = .closeFrame ∧ base.ClosesTo after) := by
  cases h with
  | worked h => exact .inl h.frames_eq
  | sent h text => exact .inl h.frames_eq
  | named => exact .inl rfl
  | openedNew hdepth => exact .inr (.inl ⟨hdepth, _, rfl, .inl ⟨rfl, rfl, by simp [adding]⟩⟩)
  | openedArray harray hdepth => exact .inr (.inl ⟨hdepth, _, rfl, .inr ⟨rfl, _, harray⟩⟩)
  | closed hdrop => exact .inr (.inr ⟨rfl, hdrop.closesTo⟩)
  | closedInto hdrop => exact .inr (.inr ⟨rfl, by simpa [ClosesTo] using hdrop.closesTo⟩)

/-- A stack that is open after a unit was open before, or it is a new one or an array that was
held. -/
theorem offers_frames (h : Effect limits base instruction after) {ref : Ref}
    (hmem : ref ∈ after.frames.toList) :
    ref ∈ base.frames.toList ∨ base.Offers after (.array ref) := by
  rcases h.frames_cases with hsame | ⟨-, opened, hopened, hwhich⟩ | ⟨-, hclose⟩
  · rw [hsame] at hmem
    exact .inl hmem
  · rw [hopened, Frames.toList_openOne] at hmem
    rcases List.mem_append.mp hmem with hmem | hmem
    · exact .inl hmem
    · cases List.mem_singleton.mp hmem
      rcases hwhich with ⟨-, rfl, hthere⟩ | ⟨-, below, harray⟩
      · exact .inr (.new (Nat.le_refl _) hthere)
      · exact .inr (.held (holds_of_stack_eq harray))
  · rcases hclose with hclose | ⟨-, hsingle, hthere⟩
    · rw [Frames.toList_of_closeOne? hclose]
      exact .inl (List.mem_append_left _ hmem)
    · rw [hsingle] at hmem
      cases List.mem_singleton.mp hmem
      exact .inr (.new (Nat.le_refl _) hthere)

/-- A variable changes only where a value is named, and only the one of that name. -/
theorem bindings_cases (h : Effect limits base instruction after) :
    after.bindings = base.bindings ∨
    (instruction = .store ∧ ∃ (below : Array Value) (name : Value), base.stack = below.push name ∧
      after.bindings = base.bindings.put ((base.taking 1).heap.render limits.nesting name)
        ((base.taking 1).stack.back?.getD .absent)) := by
  cases h with
  | worked h => exact .inl h.bindings_eq
  | sent h text => exact .inl h.bindings_eq
  | named hname => exact .inr ⟨rfl, _, _, hname, rfl⟩
  | openedNew => exact .inl rfl
  | openedArray => exact .inl rfl
  | closed hdrop => exact .inl hdrop.bindings_eq
  | closedInto hdrop => exact .inl hdrop.bindings_eq

theorem size_le (h : Effect limits base instruction after) :
    base.heap.size ≤ after.heap.size := by
  have htaking : base.heap.size ≤ (base.taking 1).heap.size := by simp [taking]
  cases h with
  | worked h => exact h.size_le
  | sent h text => exact h.size_le
  | named => exact htaking
  | openedNew => simp [adding]
  | openedArray => exact htaking
  | closed hdrop => exact hdrop.size_le
  | closedInto hdrop => simpa using hdrop.size_le

/-- **What a unit leaves alone.** Of the storages that were there, only those of the stack that was
current and of the one that a closing leads back to can read differently, and the array whose items
are changed. -/
theorem read_eq (h : Effect limits base instruction after) {ref : Ref}
    (hthere : ref.index < base.heap.size) (hcurrent : ref ≠ base.frames.current)
    (hclose : instruction = .closeFrame → ref ≠ after.frames.current)
    (hchange : ¬ base.ChangesItemsOf ref instruction) :
    after.heap.read ref = base.heap.read ref := by
  have htaking : (base.taking 1).heap.read ref = base.heap.read ref :=
    read_mapStack_of_ne _ hcurrent
  cases h with
  | worked h => exact h.read_eq hthere hcurrent hchange
  | sent h text => exact h.read_eq hthere hcurrent hchange
  | named => exact htaking
  | openedNew => exact Heap.read_alloc_of_lt _ hthere
  | openedArray => exact htaking
  | closed hdrop => exact hdrop.read_eq ref
  | @closedInto store hdrop =>
    have hpushed : ref ≠ store.frames.current := hclose rfl
    exact (read_mapStack_of_ne _ hpushed).trans (hdrop.read_eq ref)

/-- What stands in a storage after a unit stood there before, or it was held, or it is a new array,
or it is the stack that was closed. -/
theorem offers (h : Effect limits base instruction after) {ref : Ref} {v : Value}
    (hv : v ∈ after.heap.read ref) :
    v ∈ base.heap.read ref ∨ base.Offers after v ∨
      base.ClosesTo after ∧ v = .array base.frames.current := by
  have hworked {store : Store} (h : Worked limits base instruction store)
      (hv : v ∈ store.heap.read ref) (hsize : store.heap.size ≤ after.heap.size) :
      v ∈ base.heap.read ref ∨ base.Offers after v ∨
        base.ClosesTo after ∧ v = .array base.frames.current :=
    (h.offers hv).imp_right fun hv => .inl (hv.mono hsize)
  cases h with
  | worked h => exact hworked h hv (Nat.le_refl _)
  | sent h text => exact hworked h hv (Nat.le_refl _)
  | named => exact hworked (.take .refl 1) hv (Nat.le_refl _)
  | openedNew => exact hworked .adding_empty hv (Nat.le_refl _)
  | openedArray => exact hworked (.take .refl 1) hv (Nat.le_refl _)
  | closed hdrop => exact .inl (hdrop.read_eq ref ▸ hv)
  | closedInto hdrop =>
    rcases Heap.mem_read_update hv with hv | ⟨rfl, hpushed⟩
    · exact .inl (hdrop.read_eq ref ▸ hv)
    · rcases Array.mem_push.mp hpushed with hold | rfl
      · exact .inl (hdrop.read_eq _ ▸ hold)
      · exact .inr (.inr ⟨by simpa [ClosesTo] using hdrop.closesTo, rfl⟩)

/-- What the variables have after a unit was held before. -/
theorem holds (h : Effect limits base instruction after) {entry : String × Value}
    (hentry : entry ∈ after.bindings.entries) : base.Holds entry.2 := by
  rcases h.bindings_cases with hsame | ⟨-, below, name, -, hput⟩
  · rw [hsame] at hentry
    exact .binding hentry
  · rw [hput] at hentry
    rcases Dictionary.mem_putEntry hentry with hentry | rfl
    · exact .binding hentry
    · cases hback : (base.taking 1).stack.back? with
      | none => exact .plain (by simp [Value.kind])
      | some v =>
        have hmem : v ∈ base.stack := by
          rcases Heap.mem_read_update (Array.mem_of_back? hback) with hv | ⟨-, hv⟩
          · exact hv
          · exact mem_of_mem_shrink hv
        exact holds_of_mem_stack hmem

/-- A storage that was there is longer than the limit after a unit only if it was before, or `;`
added to it. -/
theorem size_read_le (h : Effect limits base instruction after) {ref : Ref}
    (hthere : ref.index < base.heap.size)
    (hset : instruction = .itemSet → ¬ base.ChangesItemsOf ref .itemSet) :
    (after.heap.read ref).size ≤ max limits.stackSize (base.heap.read ref).size := by
  have hworked {store : Store} (h : Worked limits base instruction store) :
      (store.heap.read ref).size ≤ max limits.stackSize (base.heap.read ref).size :=
    h.size_read_le hthere hset
  cases h with
  | worked h => exact hworked h
  | sent h text => exact (hworked h :)
  | named => exact (hworked (.take .refl 1) :)
  | openedNew => exact (hworked .adding_empty :)
  | openedArray => exact (hworked (.take .refl 1) :)
  | closed hdrop =>
    rw [hdrop.read_eq ref]
    exact Nat.le_max_right _ _
  | closedInto hdrop hroom =>
    refine size_read_mapStack_le ?_ fun _ => ?_
    · rw [hdrop.read_eq ref]
      exact Nat.le_max_right _ _
    · rw [Array.size_push]
      omega

end Effect

end

end Store

end GlyphStack
