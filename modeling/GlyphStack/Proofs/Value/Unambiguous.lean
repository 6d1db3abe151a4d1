import GlyphStack.Proofs.Number.Text
import GlyphStack.Proofs.Text.Quoted
import GlyphStack.Proofs.Value.Structure

/-!
The text of an array tells what the array holds. Inside an array there are three forms of text, and
the first character says which one it is: a quote begins a quoted text, a bracket an array, and
anything else a word, which is a number or `undef`. A quoted text shows where it ends by itself, and
so does an array once its items do; a word goes on up to the comma or bracket after it, and has none
of its own. So a text that is followed by such a character, or by nothing, is that of one structure
only.

What the text of a number does not tell is the sign of a zero, and which bits a double has that is not
a number. So numbers are taken as the same here if they differ in that alone.
-/

namespace GlyphStack

/-! ## 1. Words -/

namespace Text

variable {word word' rest rest' : List Char}

/-- A text that has a character, and none of those that arrays and quoted texts are written with. -/
structure IsWord (word : List Char) : Prop where
  ne_nil : word ≠ []
  plain : ∀ c ∈ word, c ≠ ',' ∧ c ≠ '[' ∧ c ≠ ']' ∧ c ≠ '"'

/-- What may come after an item: a comma, a closing bracket, or nothing. -/
def EndsItem (rest : List Char) : Prop :=
  ∀ c, rest.head? = some c → c = ',' ∨ c = ']'

theorem IsWord.append_inj (h : IsWord word) (h' : IsWord word') (hrest : EndsItem rest)
    (hrest' : EndsItem rest') (heq : word ++ rest = word' ++ rest') :
    word = word' ∧ rest = rest' := by
  have hword {word rest : List Char} (h : IsWord word) (hrest : EndsItem rest) :
      (word ++ rest).takeWhile (fun c => c ≠ ',' ∧ c ≠ ']') = word := by
    rw [List.takeWhile_append_of_pos fun c hc => by
      simpa using ⟨(h.plain c hc).1, (h.plain c hc).2.2.1⟩]
    cases rest with
    | nil => simp
    | cons c rest => rcases hrest c rfl with rfl | rfl <;> simp
  have hsame : word = word' := by
    rw [← hword h hrest, heq, hword h' hrest']
  subst hsame
  exact ⟨rfl, List.append_cancel_left heq⟩

end Text

namespace Number

open Text

/-- The text of a number has a character, and its characters are those of numerals, or those of the
names that some numbers have. -/
theorem isDecimal_or_named_of_mem_text (x : Float) :
    text x ≠ [] ∧ ∀ c ∈ text x, Numeral.isDecimal c = true ∨ c ∈ ['N', 'a', 'I', 'n', 'f'] := by
  cases hparts : parts x with
  | nan =>
    simp [text_of_parts_nan hparts]
  | infinite negative =>
    cases negative <;> simp [text_of_parts_infinite hparts, Numeral.isDecimal]
  | finite negative mantissa exponent =>
    by_cases hmantissa : mantissa = 0
    · have hdigit : Numeral.isDecimal '0' = true := by decide
      simp [text_of_parts_zero (hmantissa ▸ hparts), hdigit]
    · obtain ⟨numeral, hread, -⟩ := read?_text hparts hmantissa
      refine ⟨fun hnil => ?_, fun c hc => .inl (Numeral.isDecimal_of_read? hread hc)⟩
      rw [hnil] at hread
      cases hread

theorem isWord_text (x : Float) : IsWord (text x) where
  ne_nil := (isDecimal_or_named_of_mem_text x).1
  plain c hc := by
    have hcases := (isDecimal_or_named_of_mem_text x).2 c hc
    refine ⟨?_, ?_, ?_, ?_⟩
    all_goals
      rintro rfl
      revert hcases
      decide

theorem text_ne_undef (x : Float) : text x ≠ "undef".toList := by
  intro h
  have hmem : 'u' ∈ text x := by
    rw [h]
    decide
  have hcases := (isDecimal_or_named_of_mem_text x).2 'u' hmem
  revert hcases
  decide

end Number

namespace Heap

open Text Number

variable {heap other : Heap} {limit depth : Nat} {a b v : Value} {rest rest' : List Char}

/-! ## 2. Lists of items -/

section

variable {write write' : Value → List Char} {related : Value → Value → Prop} {xs ys : List Value}

/-- The items after the first one, each with its comma before it. -/
theorem following_inj
    (hitem : ∀ x ∈ xs, ∀ y ∈ ys, ∀ rest rest', EndsItem rest → EndsItem rest' →
      write x ++ rest = write' y ++ rest' → related x y ∧ rest = rest')
    (h : (xs.map write).flatMap ([',', ' '] ++ ·) ++ ']' :: rest =
      (ys.map write').flatMap ([',', ' '] ++ ·) ++ ']' :: rest') :
    List.Forall₂ related xs ys ∧ rest = rest' := by
  have hends (texts : List (List Char)) (rest : List Char) :
      EndsItem (texts.flatMap ([',', ' '] ++ ·) ++ ']' :: rest) := by
    cases texts <;> simp [EndsItem]
  induction xs generalizing ys with
  | nil =>
    cases ys with
    | nil => exact ⟨.nil, by simpa using h⟩
    | cons y ys => simp at h
  | cons x xs ih =>
    cases ys with
    | nil => simp at h
    | cons y ys =>
      have h : write x ++ ((xs.map write).flatMap ([',', ' '] ++ ·) ++ ']' :: rest) =
          write' y ++ ((ys.map write').flatMap ([',', ' '] ++ ·) ++ ']' :: rest') := by
        simpa using h
      obtain ⟨hfirst, hrest⟩ :=
        hitem x List.mem_cons_self y List.mem_cons_self _ _ (hends _ _) (hends _ _) h
      obtain ⟨hothers, rfl⟩ := ih (fun x hx y hy =>
        hitem x (List.mem_cons_of_mem _ hx) y (List.mem_cons_of_mem _ hy)) hrest
      exact ⟨.cons hfirst hothers, rfl⟩

/-- Items with commas between them and a bracket after them can be told apart if each of them shows
where it ends, and none begins with a bracket that closes. -/
theorem items_inj
    (hitem : ∀ x ∈ xs, ∀ y ∈ ys, ∀ rest rest', EndsItem rest → EndsItem rest' →
      write x ++ rest = write' y ++ rest' → related x y ∧ rest = rest')
    (hwrite : ∀ x rest rest', write x ++ rest ≠ ']' :: rest')
    (hwrite' : ∀ y rest rest', write' y ++ rest ≠ ']' :: rest')
    (h : [',', ' '].intercalate (xs.map write) ++ ']' :: rest =
      [',', ' '].intercalate (ys.map write') ++ ']' :: rest') :
    List.Forall₂ related xs ys ∧ rest = rest' := by
  cases xs with
  | nil =>
    cases ys with
    | nil => exact ⟨.nil, by simpa using h⟩
    | cons y ys =>
      rw [List.map_cons, intercalate_cons, List.append_assoc] at h
      exact absurd h.symm (hwrite' y _ _)
  | cons x xs =>
    cases ys with
    | nil =>
      rw [List.map_cons, intercalate_cons, List.append_assoc] at h
      exact absurd h (hwrite x _ _)
    | cons y ys =>
      refine following_inj hitem ?_
      simp only [List.map_cons, intercalate_cons, List.append_assoc] at h
      simp only [List.map_cons, List.flatMap_cons, List.append_assoc, h]

end

/-! ## 3. Values -/

theorem isWord_undef : IsWord "undef".toList :=
  ⟨by decide, by simp⟩

/-- A value that is no array is written as a quoted text or as a word. -/
theorem quoted_or_isWord (heap : Heap) (depth : Nat) (h : v.kind ≠ .array) :
    (∃ text, v = .string text) ∨ IsWord (heap.writtenOut depth v) := by
  cases v with
  | array => exact absurd rfl h
  | string text => exact .inl ⟨text, rfl⟩
  | number x => exact .inr (writtenOut_number heap depth x ▸ isWord_text x)
  | absent => exact .inr (writtenOut_absent heap depth ▸ isWord_undef)

/-- The first character of a text in an array says whether it is that of an array. -/
theorem head_writtenOut (heap : Heap) (depth : Nat) (v : Value) :
    ∃ c rest, heap.writtenOut depth v = c :: rest ∧ c ≠ ']' ∧ (c = '[' ↔ v.kind = .array) := by
  rcases v.array_or_kind_ne with ⟨ref, rfl⟩ | hkind
  · cases depth with
    | zero => exact ⟨'[', _, rfl, by decide, by simp [Value.kind]⟩
    | succ depth => exact ⟨'[', _, rfl, by decide, by simp [Value.kind]⟩
  · rcases quoted_or_isWord heap depth hkind with ⟨text, rfl⟩ | hword
    · exact ⟨'"', _, writtenOut_string heap depth text, by decide, by simp [Value.kind]⟩
    · obtain ⟨c, rest, hc⟩ := List.exists_cons_of_ne_nil hword.ne_nil
      obtain ⟨-, hopen, hclose, -⟩ := hword.plain c (hc ▸ List.mem_cons_self)
      exact ⟨c, rest, hc, hclose, iff_of_false hopen hkind⟩

/-- Two values that are written as words have one text only if they are the same. -/
theorem sameStructure_of_words (hword : IsWord (heap.writtenOut depth a))
    (hword' : IsWord (other.writtenOut depth b)) (ha : a.kind ≠ .array) (hb : b.kind ≠ .array)
    (h : heap.writtenOut depth a = other.writtenOut depth b) :
    SameStructure Identified heap other a b := by
  have hnoQuote {text : String} {heap : Heap} (h : IsWord (heap.writtenOut depth (.string text))) :
      False := by
    rw [writtenOut_string] at h
    exact (h.plain '"' List.mem_cons_self).2.2.2 rfl
  cases a with
  | array => exact absurd rfl ha
  | string => exact absurd hword hnoQuote
  | number x =>
    cases b with
    | array => exact absurd rfl hb
    | string => exact absurd hword' hnoQuote
    | number y =>
      rw [writtenOut_number, writtenOut_number, text_eq_iff] at h
      exact .number h
    | absent =>
      rw [writtenOut_number, writtenOut_absent] at h
      exact absurd h (text_ne_undef x)
  | absent =>
    cases b with
    | array => exact absurd rfl hb
    | string => exact absurd hword' hnoQuote
    | number y =>
      rw [writtenOut_number, writtenOut_absent] at h
      exact absurd h.symm (text_ne_undef y)
    | absent => exact .absent

/-- Two values that are no arrays have one text only if they are the same. -/
theorem writtenOut_inj_of_kind_ne (ha : a.kind ≠ .array) (hb : b.kind ≠ .array)
    (hrest : EndsItem rest) (hrest' : EndsItem rest')
    (h : heap.writtenOut depth a ++ rest = other.writtenOut depth b ++ rest') :
    SameStructure Identified heap other a b ∧ rest = rest' := by
  -- a word does not begin with a quote
  have hdiffer {word rest rest' : List Char} {text : String} (hword : IsWord word) :
      word ++ rest ≠ quoted text.toList ++ rest' := by
    obtain ⟨c, word, rfl⟩ := List.exists_cons_of_ne_nil hword.ne_nil
    exact fun h => (hword.plain c List.mem_cons_self).2.2.2 (List.cons.inj h).1
  rcases quoted_or_isWord heap depth ha with ⟨text, rfl⟩ | hword
  · rw [writtenOut_string] at h
    rcases quoted_or_isWord other depth hb with ⟨text', rfl⟩ | hword'
    · rw [writtenOut_string] at h
      obtain ⟨htext, hsame⟩ := quoted_append_inj h
      exact ⟨String.toList_inj.mp htext ▸ .string text, hsame⟩
    · exact absurd h.symm (hdiffer hword')
  · rcases quoted_or_isWord other depth hb with ⟨text', rfl⟩ | hword'
    · rw [writtenOut_string] at h
      exact absurd h (hdiffer hword)
    · obtain ⟨hsame, hrest⟩ := hword.append_inj hword' hrest hrest' h
      exact ⟨sameStructure_of_words hword hword' ha hb hsame, hrest⟩

/-- **A text in an array is that of one structure.** -/
theorem writtenOut_inj (ha : heap.NestsWithin depth a) (hb : other.NestsWithin depth b)
    (hrest : EndsItem rest) (hrest' : EndsItem rest')
    (h : heap.writtenOut depth a ++ rest = other.writtenOut depth b ++ rest') :
    SameStructure Identified heap other a b ∧ rest = rest' := by
  have hkind {depth : Nat} {a b : Value} {rest rest' : List Char}
      (h : heap.writtenOut depth a ++ rest = other.writtenOut depth b ++ rest') :
      a.kind = .array ↔ b.kind = .array := by
    obtain ⟨c, cs, hc, -, hiff⟩ := head_writtenOut heap depth a
    obtain ⟨d, ds, hd, -, hiff'⟩ := head_writtenOut other depth b
    rw [hc, hd] at h
    obtain ⟨rfl, -⟩ := List.cons.inj h
    exact hiff.symm.trans hiff'
  have hnever (heap : Heap) (depth : Nat) (v : Value) (rest rest' : List Char) :
      heap.writtenOut depth v ++ rest ≠ ']' :: rest' := by
    obtain ⟨c, cs, hc, hne, -⟩ := head_writtenOut heap depth v
    rw [hc]
    exact fun h => hne (List.cons.inj h).1
  induction depth generalizing a b rest rest' with
  | zero =>
    rcases a.array_or_kind_ne with ⟨left, rfl⟩ | ha'
    · exact absurd ha not_nestsWithin_zero
    · exact writtenOut_inj_of_kind_ne ha' (mt (hkind h).mpr ha') hrest hrest' h
  | succ depth ih =>
    rcases a.array_or_kind_ne with ⟨left, rfl⟩ | ha'
    · rcases b.array_or_kind_ne with ⟨right, rfl⟩ | hb'
      · rw [nestsWithin_succ_iff] at ha hb
        simp only [writtenOut, List.cons_append, List.append_assoc, List.nil_append, List.cons.injEq,
          true_and] at h
        obtain ⟨hall, hsame⟩ := items_inj (fun x hx y hy rest rest' hrest hrest' h =>
          ih (ha x (Array.mem_toList_iff.mp hx)) (hb y (Array.mem_toList_iff.mp hy)) hrest hrest' h)
          (hnever heap depth) (hnever other depth) h
        exact ⟨SameStructure.array_iff.mpr hall, hsame⟩
      · exact absurd ((hkind h).mp rfl) hb'
    · exact writtenOut_inj_of_kind_ne ha' (mt (hkind h).mpr ha') hrest hrest' h

/-! ## 4. Arrays -/

/-- **The text of an array is unambiguous.** Two arrays whose items lie no deeper than the limit, which
is to say that they have deep copies, have one text exactly if they have the same structure: equal
texts, absent values, and numbers that are the same but for the sign of zeros, at the same places. -/
theorem render_eq_iff_sameStructure (hheap : heap.Closed) {left right : Ref}
    (hleft : left.index < heap.size) (hright : right.index < heap.size) (limit : Nat)
    (hcopy : (heap.deepCopy limit (.array left)).isSome)
    (hcopy' : (heap.deepCopy limit (.array right)).isSome) :
    heap.render limit (.array left) = heap.render limit (.array right) ↔
      SameStructure Identified heap heap (.array left) (.array right) := by
  have hnests {ref : Ref} (hlt : ref.index < heap.size)
      (hcopy : (heap.deepCopy limit (.array ref)).isSome) : heap.NestsWithin limit (.array ref) := by
    have hwithin : (Value.array ref).Within heap.size := fun _ href => Value.array.inj href ▸ hlt
    exact (isSome_deepCopy_iff hheap hwithin (.refl heap)).mp hcopy
  have hleft := hnests hleft hcopy
  have hright := hnests hright hcopy'
  have hends : EndsItem [] := by simp [EndsItem]
  constructor
  · intro h
    have htext : heap.writtenOut limit (.array left) ++ [] =
        heap.writtenOut limit (.array right) ++ [] := by
      rw [← hleft.renderWithin_eq, ← hright.renderWithin_eq, String.ofList_injective h]
    exact (writtenOut_inj hleft hright hends hends htext).1
  · intro h
    exact (h.render_eq (fun _ _ hsame => (text_eq_iff.mpr hsame).symm) hleft).symm

/-- Brackets and commas in a quoted text do not confuse, and a zero loses its sign. -/
theorem sameStructure_of_one_text :
    let heap : Heap := ⟨#[#[.string "], [", .number Number.zero], #[.string "], [",
      .number (Number.ofRatio true 0 1)], #[.array ⟨0⟩, .absent], #[.array ⟨1⟩, .absent]]⟩
    heap.render 2 (.array ⟨2⟩) = "[[\"], [\", 0], undef]" ∧
      SameStructure Identified heap heap (.array ⟨2⟩) (.array ⟨3⟩) := by
  intro heap
  have hheap : heap.Closed := closed_of_storages (by decide)
  have htext : heap.render 2 (.array ⟨2⟩) = "[[\"], [\", 0], undef]" := by decide +kernel
  have htext' : heap.render 2 (.array ⟨3⟩) = "[[\"], [\", 0], undef]" := by decide +kernel
  have hiff : heap.render 2 (.array ⟨2⟩) = heap.render 2 (.array ⟨3⟩) ↔
      SameStructure Identified heap heap (.array ⟨2⟩) (.array ⟨3⟩) :=
    render_eq_iff_sameStructure hheap (by decide) (by decide) 2 (by decide) (by decide)
  exact ⟨htext, hiff.mp (htext.trans htext'.symm)⟩

end Heap

end GlyphStack
