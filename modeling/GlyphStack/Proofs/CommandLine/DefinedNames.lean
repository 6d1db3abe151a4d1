import Mathlib.Data.List.Induction
import GlyphStack.CommandLine.Session
import GlyphStack.Proofs.Machine.Lookup
import GlyphStack.Proofs.Store.Copies

/-!
Defined names. A definition on the command line is a text `NAME=VALUE`, cut at its first equals sign.
Its name is stored in lower case, as programs write out words, so a program that names a variable by
an identifier finds what was defined under that name in whatever letters, and of several definitions
the last one (`run_of_definitions`).
-/

namespace GlyphStack.CommandLine

/-! ## 1. Texts of definitions -/

/-- The text defines `name` by the text `value`. The value may have equals signs in it, the name may
not, and there must be a name. -/
structure Defines (text name value : String) : Prop where
  text_eq : text = name ++ "=" ++ value
  ends : '=' ∉ name.toList
  named : name ≠ ""

/-- The text defines a variable that a program finds under `word`. -/
def Names (text word : String) : Prop :=
  ∃ name value, Defines text name value ∧ Text.lowercase name = Text.lowercase word

/-- What definitions give to the variable that a program finds under `word`: the value of the last
one of it, and nothing if none is of it. -/
inductive DefinedAs (word : String) : List String → Value → Prop where
  | nowhere {texts : List String} (h : ∀ text ∈ texts, ¬ Names text word) :
      DefinedAs word texts .absent
  | last {before after : List String} {text name value : String} (htext : Defines text name value)
      (hname : Text.lowercase name = Text.lowercase word)
      (hafter : ∀ other ∈ after, ¬ Names other word) :
      DefinedAs word (before ++ text :: after) (Invocation.definedValue value)

variable {text name value word : String} {texts : List String} {v : Value}

/-- What is read is a definition, with its name in lower case. -/
theorem readDefinition_eq_ok_iff {entry : String × String} :
    readDefinition text = .ok entry ↔
      ∃ name value, Defines text name value ∧ entry = (Text.lowercase name, value) := by
  constructor
  · intro h
    have hends : '=' ∉ text.toList.takeWhile (· ≠ '=') := fun hmem => by
      simpa using List.mem_takeWhile_imp hmem
    have hparts := List.takeWhile_append_dropWhile (p := (· ≠ '=')) (l := text.toList)
    have hsign := List.head?_dropWhile_not (· ≠ '=') text.toList
    simp only [readDefinition] at h
    generalize text.toList.takeWhile (· ≠ '=') = letters at h hends hparts
    split at h
    · rename_i c rest hdrop
      rw [hdrop] at hparts hsign
      obtain rfl : c = '=' := by simpa using hsign
      split_ifs at h with hempty
      refine ⟨String.ofList letters, String.ofList rest, ⟨?_, ?_, ?_⟩, (Except.ok.inj h).symm⟩
      · rw [← String.toList_inj, ← hparts]
        simp
      · simpa using hends
      · simpa [String.ofList_eq_empty_iff] using hempty
    · contradiction
  · rintro ⟨name, value, ⟨htext, hends, hnamed⟩, rfl⟩
    have hletters : ∀ c ∈ name.toList, decide (c ≠ '=') = true := by
      intro c hc
      rw [decide_eq_true_iff]
      rintro rfl
      exact hends hc
    have hparts : text.toList = name.toList ++ '=' :: value.toList := by
      simp [htext]
    have htake : text.toList.takeWhile (· ≠ '=') = name.toList := by
      rw [hparts, List.takeWhile_append_of_pos hletters]
      simp
    have hdrop : text.toList.dropWhile (· ≠ '=') = '=' :: value.toList := by
      rw [hparts, List.dropWhile_append_of_pos hletters]
      simp
    have hempty : name.toList.isEmpty = false := by
      simpa [List.isEmpty_eq_false_iff] using hnamed
    simp only [readDefinition, htake, hdrop, hempty]
    simp

/-- What a text defines is settled by the text, the name up to its letters. -/
theorem Defines.unique {name' value' : String} (h : Defines text name value)
    (h' : Defines text name' value') :
    Text.lowercase name = Text.lowercase name' ∧ value = value' := by
  have hread := readDefinition_eq_ok_iff.mpr ⟨name, value, h, rfl⟩
  rw [readDefinition_eq_ok_iff.mpr ⟨name', value', h', rfl⟩] at hread
  obtain ⟨hname, hvalue⟩ := Prod.mk.inj (Except.ok.inj hread)
  exact ⟨hname.symm, hvalue.symm⟩

theorem Defines.names_iff (h : Defines text name value) :
    Names text word ↔ Text.lowercase name = Text.lowercase word := by
  constructor
  · rintro ⟨name', value', h', hname⟩
    exact (h.unique h').1.trans hname
  · intro hname
    exact ⟨name, value, h, hname⟩

/-! ## 2. The last definition -/

theorem definedAs_nil : DefinedAs word [] v ↔ v = .absent := by
  constructor
  · intro h
    generalize htexts : [] = texts at h
    cases h with
    | nowhere => rfl
    | last => simp at htexts
  · rintro rfl
    exact .nowhere (by simp)

/-- A text behind all others counts if it defines the variable, and the others count if it does
not. -/
theorem definedAs_append_iff : DefinedAs word (texts ++ [text]) v ↔
    (∃ name value, Defines text name value ∧ Text.lowercase name = Text.lowercase word ∧
      v = Invocation.definedValue value) ∨
    (¬ Names text word ∧ DefinedAs word texts v) := by
  constructor
  · intro h
    generalize htexts : texts ++ [text] = all at h
    cases h with
    | nowhere hnowhere =>
      subst htexts
      obtain ⟨hbefore, htext⟩ := List.forall_mem_append.mp hnowhere
      exact .inr ⟨htext text List.mem_cons_self, .nowhere hbefore⟩
    | @last before after other name value hother hname hafter =>
      rcases List.eq_nil_or_concat' after with rfl | ⟨between, final, rfl⟩
      · obtain ⟨-, hlast⟩ := List.append_inj' htexts rfl
        cases hlast
        exact .inl ⟨name, value, hother, hname, rfl⟩
      · rw [← List.cons_append, ← List.append_assoc] at htexts
        obtain ⟨rfl, hlast⟩ := List.append_inj' htexts rfl
        cases hlast
        obtain ⟨hbetween, htext⟩ := List.forall_mem_append.mp hafter
        exact .inr ⟨htext text List.mem_cons_self, .last hother hname hbetween⟩
  · rintro (⟨name, value, htext, hname, rfl⟩ | ⟨htext, h⟩)
    · exact .last htext hname (by simp)
    · cases h with
      | nowhere hnowhere =>
        refine .nowhere (List.forall_mem_append.mpr ⟨hnowhere, ?_⟩)
        simpa using htext
      | @last before after other name value hother hname hafter =>
        rw [List.append_assoc, List.cons_append]
        refine .last hother hname (List.forall_mem_append.mpr ⟨hafter, ?_⟩)
        simpa using htext

namespace Invocation

variable {invocation : Invocation} {front : List (String × String)} {limits : Limits}

theorem mapM_readDefinition_append {entries : List (String × String)}
    (h : (texts ++ [text]).mapM readDefinition = .ok entries) :
    ∃ front entry, texts.mapM readDefinition = .ok front ∧ readDefinition text = .ok entry ∧
      entries = front ++ [entry] := by
  rw [List.mapM_append, List.mapM_cons, List.mapM_nil] at h
  cases hfront : texts.mapM readDefinition with
  | error => simp [hfront, bind, Except.bind] at h
  | ok front =>
    cases hentry : readDefinition text with
    | error => simp [hfront, hentry, bind, Except.bind] at h
    | ok entry =>
      rw [hfront, hentry] at h
      exact ⟨front, entry, rfl, rfl, (Except.ok.inj h).symm⟩

theorem bindings_eq_put (h : invocation.defines = front ++ [(name, value)]) :
    invocation.bindings =
      ({ invocation with defines := front }).bindings.put name (definedValue value) := by
  simp [bindings, h]

/-- **The variables of a command line are what its definitions say.** A name stands for the value of
the last definition that gives it one, whatever the case of the letters in either. -/
theorem definedAs_iff (hread : texts.mapM readDefinition = .ok invocation.defines) :
    DefinedAs word texts v ↔
      v = (invocation.bindings.get? (Text.lowercase word)).getD .absent := by
  -- the definitions are put one behind the other, so the last one is the last step of the fold
  induction texts using List.reverseRecOn generalizing invocation v with
  | nil =>
    have hdefines : invocation.defines = [] := by
      simpa [pure, Except.pure] using hread.symm
    rw [definedAs_nil, bindings, hdefines]
    rfl
  | append_singleton texts text ih =>
    obtain ⟨front, entry, hfront, hentry, hdefines⟩ := mapM_readDefinition_append hread
    obtain ⟨name, value, htext, rfl⟩ := readDefinition_eq_ok_iff.mp hentry
    have ih : DefinedAs word texts v ↔ v =
        (({ invocation with defines := front }).bindings.get? (Text.lowercase word)).getD .absent :=
      ih hfront
    rw [definedAs_append_iff, htext.names_iff, bindings_eq_put hdefines, ih]
    by_cases hname : Text.lowercase name = Text.lowercase word
    · rw [hname, Dictionary.get?_put_self, Option.getD_some]
      constructor
      · rintro (⟨name', value', htext', -, rfl⟩ | ⟨hother, -⟩)
        · rw [(htext.unique htext').2]
        · contradiction
      · rintro rfl
        exact .inl ⟨name, value, htext, hname, rfl⟩
    · rw [Dictionary.get?_put_of_ne _ (Ne.symm hname)]
      constructor
      · rintro (⟨name', value', htext', hname', -⟩ | ⟨-, h⟩)
        · exact absurd ((htext.unique htext').1.trans hname') hname
        · exact h
      · intro h
        exact .inr ⟨hname, h⟩

theorem kind_definedValue_ne (text : String) : (definedValue text).kind ≠ .array := by
  unfold definedValue
  dsimp only
  split <;> simp [Value.kind]

/-- Definitions make no arrays. -/
theorem kind_ne_of_mem_bindings :
    ∀ entry ∈ invocation.bindings.entries, entry.2.kind ≠ .array := by
  refine List.foldlRecOn (motive := fun bindings : Dictionary =>
    ∀ entry ∈ bindings.entries, entry.2.kind ≠ .array) _ _ nofun ?_
  intro bindings hbindings definition _ entry hentry
  rcases Dictionary.mem_putEntry hentry with hold | rfl
  · exact hbindings entry hold
  · exact kind_definedValue_ne _

/-- So a machine can be given all of them, whatever its limits. -/
theorem withBindings_bindings (invocation : Invocation) (machine : Machine) :
    machine.withBindings invocation.bindings =
      .ok { machine with store := { machine.store with bindings := invocation.bindings } } :=
  Machine.withBindings_eq_ok_iff.mpr
    ⟨_, _, Dictionary.snapshot_of_kind kind_ne_of_mem_bindings, rfl⟩

/-! ## 3. Programs that name a variable -/

/-- **Defined names reach the program.** Run with the variables of any definitions, under any limits
that leave room for a value, and on any heap, the program that names a variable by an identifier ends
after two units with one value on its stack: that of the last definition of the variable, or the
absent value if there is none. -/
theorem run_of_definitions (heap : Heap)
    (hread : texts.mapM readDefinition = .ok invocation.defines) (hword : IsIdentifier word)
    (hroom : 1 ≤ limits.stackSize) :
    ∃ machine after v,
      ((Machine.onHeap heap (word ++ "^")).withLimits limits).withBindings invocation.bindings =
        .ok machine ∧
      (∀ fuel, 2 ≤ fuel → machine.run? fuel = some (.ok (), after)) ∧
      after.store.stack = #[v] ∧ after.store.output = #[] ∧
      ∀ w, DefinedAs word texts w ↔ w = v := by
  have hbindings := withBindings_bindings invocation
    ((Machine.onHeap heap (word ++ "^")).withLimits limits)
  generalize hmachine : Machine.mk _ _ _ _ _ = machine at hbindings
  have hstack : machine.store.stack = #[] := by
    rw [← hmachine]
    exact Store.stack_onHeap heap
  have hthere : machine.store.frames.current.index < machine.store.heap.size := by
    rw [← hmachine]
    exact Store.current_onHeap_lt heap
  have hrest : machine.program.rest machine.position = word.toList ++ ['^'] := by
    rw [← hmachine]
    exact String.toList_append
  have hspace : machine.store.stack.size < machine.limits.stackSize := by
    rw [hstack, ← hmachine]
    exact hroom
  obtain ⟨after, hpushed, hsilent, hrun⟩ :=
    Machine.run?_lookup hword (by rw [← hmachine]; rfl) hrest hthere hspace
  refine ⟨machine, after, _, hbindings, hrun, ?_, ?_, fun w => definedAs_iff hread⟩
  · rw [hpushed, hstack, ← hmachine]
    rfl
  · rw [hsilent, ← hmachine]
    rfl

/-- Of two definitions in different letters the second counts, cut at its first equals sign, and the
stack has no room for more than its value. -/
theorem run_of_two_definitions :
    let texts := ["N=1", "n=a=b"]
    let invocation : Invocation := { defines := [("n", "1"), ("n", "a=b")] }
    let limits : Limits := { stackSize := 1, nesting := 0 }
    texts.mapM readDefinition = .ok invocation.defines ∧ IsIdentifier "N" ∧ 1 ≤ limits.stackSize ∧
      ∃ machine after,
        ((Machine.onHeap .empty "N^").withLimits limits).withBindings invocation.bindings =
          .ok machine ∧
        machine.run? 2 = some (.ok (), after) ∧ after.store.stack = #[.string "a=b"] := by
  intro texts invocation limits
  have hread : texts.mapM readDefinition = .ok invocation.defines := rfl
  have hword : IsIdentifier "N" := ⟨'N', [], rfl, rfl, nofun⟩
  have hroom : 1 ≤ limits.stackSize := Nat.le_refl 1
  obtain ⟨machine, after, v, hmachine, hrun, hstack, -, hdefined⟩ :=
    run_of_definitions .empty hread hword hroom
  have hvalue : DefinedAs "N" texts (.string "a=b") := by
    have hlast : Defines "n=a=b" "n" "a=b" := ⟨rfl, by decide, by decide⟩
    have hafter : DefinedAs "N" (["N=1"] ++ "n=a=b" :: []) (definedValue "a=b") :=
      .last hlast rfl nofun
    exact hafter
  refine ⟨hread, hword, hroom, machine, after, hmachine, hrun 2 (Nat.le_refl 2), ?_⟩
  rw [hstack, (hdefined _).mp hvalue]

end Invocation

end GlyphStack.CommandLine
