import GlyphStack.Proofs.Program.Sweep

/-!
Texts between delimiters. What stands between the delimiters is a row of items: a character that is
neither a backslash nor the delimiter, or a backslash and any one character after it. A text is read
to its end exactly if it is such a row with the delimiter behind it, and what it stands for is what
the items mean (`textUpTo_eq_some_iff`). An item never begins with the delimiter, so the row ends at
the first delimiter that is not part of an item, and there is one end at most.

Whatever a text holds, it can be put between delimiters: with a backslash before each backslash and
each delimiter it is a row of items that mean its characters (`items_quoted`).
-/

namespace GlyphStack.Program

/-! ## 1. Items -/

/-- What a text between delimiters is made of. -/
inductive Item (delimiter : Char) where
  /-- A character that stands for itself. -/
  | plain (c : Char) (hplain : c ≠ '\\' ∧ c ≠ delimiter)
  /-- A character with a backslash before it. -/
  | escaped (c : Char)

namespace Item

variable {delimiter : Char}

/-- The characters of an item. -/
def written : Item delimiter → List Char
  | .plain c _ => [c]
  | .escaped c => ['\\', c]

/-- The character that an item stands for: a carriage return, a line feed and a tabulator have
letters, and any other character behind a backslash is that character. -/
def meaning : Item delimiter → Char
  | .plain c _ => c
  | .escaped 'r' => '\r'
  | .escaped 'n' => '\n'
  | .escaped 't' => '\t'
  | .escaped c => c

theorem meaning_escaped (c : Char) : (escaped c : Item delimiter).meaning = unescape c := by
  unfold meaning unescape
  split <;> simp_all

end Item

open Item

section

variable {delimiter : Char} {text rest : List Char}

/-- The characters of the text from `start` to before `stop` are a delimiter, the items and the
delimiter again. -/
structure IsDelimited (text : List Char) (start : Nat) (items : List (Item delimiter)) (stop : Nat) :
    Prop where
  opening : text[start]? = some delimiter
  inside : text.extract (start + 1) (stop - 1) = items.flatMap written
  lt_stop : start + 1 < stop
  closing : text[stop - 1]? = some delimiter

/-! ## 2. Reading -/

/-- Reading takes an item off as what it means. -/
theorem textUpTo_written (item : Item delimiter) (rest : List Char) :
    textUpTo delimiter (item.written ++ rest) =
      (textUpTo delimiter rest).map fun (text, n) =>
        (item.meaning :: text, n + item.written.length) := by
  cases item with
  | plain c hplain =>
    rw [written, List.singleton_append, textUpTo.eq_def delimiter (c :: rest)]
    simp only [if_neg hplain.1, if_neg hplain.2]
    rfl
  | escaped c =>
    rw [meaning_escaped]
    rfl

/-- Items with the delimiter behind them are read up to it, as what they mean. -/
theorem textUpTo_items (hdelimiter : delimiter ≠ '\\') (items : List (Item delimiter))
    (rest : List Char) :
    textUpTo delimiter (items.flatMap written ++ delimiter :: rest) =
      some (items.map meaning, (items.flatMap written).length + 1) := by
  induction items with
  | nil =>
    rw [List.flatMap_nil, List.nil_append, textUpTo.eq_def]
    simp [hdelimiter]
  | cons item items ih =>
    have hlength : (items.flatMap written).length + 1 + item.written.length =
        ((item :: items).flatMap written).length + 1 := by
      rw [List.flatMap_cons, List.length_append]
      omega
    rw [List.flatMap_cons, List.append_assoc, textUpTo_written, ih, ← List.flatMap_cons, ← hlength]
    rfl

/-- What is read to its end are items with the delimiter behind them. -/
theorem exists_items_of_textUpTo {decoded : List Char} {n : Nat}
    (h : textUpTo delimiter rest = some (decoded, n)) :
    ∃ (items : List (Item delimiter)) (after : List Char),
      rest = items.flatMap written ++ delimiter :: after ∧ decoded = items.map meaning ∧
        n = (items.flatMap written).length + 1 := by
  fun_induction textUpTo delimiter rest generalizing decoded n with
  | case1 => contradiction
  | case2 => contradiction
  | case3 escaped rest ih =>
    obtain ⟨⟨inner, m⟩, hinner, hread⟩ := Option.map_eq_some_iff.mp h
    obtain ⟨items, after, rfl, rfl, rfl⟩ := ih hinner
    cases hread
    exact ⟨.escaped escaped :: items, after, rfl, by simp [meaning_escaped], by simp [written]⟩
  | case4 rest hescape =>
    cases h
    exact ⟨[], rest, rfl, rfl, rfl⟩
  | case5 c rest hescape hdelimiter ih =>
    obtain ⟨⟨inner, m⟩, hinner, hread⟩ := Option.map_eq_some_iff.mp h
    obtain ⟨items, after, rfl, rfl, rfl⟩ := ih hinner
    cases hread
    exact ⟨.plain c ⟨hescape, hdelimiter⟩ :: items, after, rfl, by simp [meaning], by simp [written]⟩

/-- The items of a literal by what is left of the text at its delimiter. -/
theorem isDelimited_iff {start stop : Nat} {items : List (Item delimiter)} :
    IsDelimited text start items stop ↔
      ∃ after, text.drop start = delimiter :: (items.flatMap written ++ delimiter :: after) ∧
        stop = start + (items.flatMap written).length + 2 := by
  constructor
  · rintro ⟨hopening, hinside, hlt, hclosing⟩
    have hstop : stop - 1 < text.length := (List.getElem?_eq_some_iff.mp hclosing).1
    have hlength : (items.flatMap written).length = stop - 1 - (start + 1) := by
      rw [← hinside, List.extract_eq_take_drop, List.length_take, List.length_drop]
      omega
    refine ⟨text.drop stop, ?_, by omega⟩
    have hbehind : (text.drop (start + 1)).drop (stop - 1 - (start + 1)) =
        delimiter :: text.drop stop := by
      rw [List.drop_drop, show start + 1 + (stop - 1 - (start + 1)) = stop - 1 by omega,
        drop_of_getElem? hclosing, show stop - 1 + 1 = stop by omega]
    rw [drop_of_getElem? hopening, ← hinside, List.extract_eq_take_drop, ← hbehind,
      List.take_append_drop]
  · rintro ⟨after, hdrop, rfl⟩
    have hrest : text.drop (start + 1) = items.flatMap written ++ delimiter :: after := by
      rw [← List.drop_drop, hdrop, List.drop_one, List.tail_cons]
    refine ⟨getElem?_of_drop_eq_cons hdrop, ?_, by omega, ?_⟩
    · rw [List.extract_eq_take_drop, hrest,
        show start + (items.flatMap written).length + 2 - 1 - (start + 1) =
          (items.flatMap written).length by omega, List.take_left]
    · rw [show start + (items.flatMap written).length + 2 - 1 =
          start + 1 + (items.flatMap written).length by omega, ← List.getElem?_drop, hrest]
      simp

/-- A literal is read as what its items mean, and its length is where it ends. -/
theorem delimited_eq_ok_iff (hdelimiter : delimiter ≠ '\\') {start : Nat}
    (hopening : text[start]? = some delimiter) {decoded : String} {n : Nat} :
    delimited (text.drop start) = .ok (decoded, n) ↔
      ∃ items : List (Item delimiter), IsDelimited text start items (start + n) ∧
        decoded = String.ofList (items.map meaning) := by
  simp only [isDelimited_iff]
  rw [drop_of_getElem? hopening]
  constructor
  · intro h
    simp only [delimited] at h
    split at h
    · rename_i inner m hread
      cases h
      obtain ⟨items, after, hrest, rfl, rfl⟩ := exists_items_of_textUpTo hread
      exact ⟨items, ⟨after, by rw [hrest], by omega⟩, rfl⟩
    · contradiction
  · rintro ⟨items, ⟨after, hrest, hstop⟩, rfl⟩
    obtain rfl : n = (items.flatMap written).length + 2 := by omega
    rw [hrest, delimited, textUpTo_items hdelimiter]

/-- The only fault of a literal is that it is open. -/
theorem delimited_eq_error {fault : Malformation} (h : delimited rest = .error fault) :
    fault = .openText := by
  unfold delimited at h
  split at h
  · exact (Except.error.inj h).symm
  · split at h
    · contradiction
    · exact (Except.error.inj h).symm

/-- A literal that starts at a position has one end. -/
theorem IsDelimited.stop_unique (hdelimiter : delimiter ≠ '\\') {start stop stop' : Nat}
    {items items' : List (Item delimiter)} (h : IsDelimited text start items stop)
    (h' : IsDelimited text start items' stop') : stop = stop' := by
  obtain ⟨after, hdrop, rfl⟩ := isDelimited_iff.mp h
  obtain ⟨after', hdrop', rfl⟩ := isDelimited_iff.mp h'
  have hread := textUpTo_items hdelimiter items after
  rw [(List.cons.inj (hdrop.symm.trans hdrop')).2, textUpTo_items hdelimiter items' after',
    Option.some.injEq, Prod.mk.injEq] at hread
  omega

/-! ## 3. Putting a text between delimiters -/

/-- A character as it is written between delimiters, with a backslash before a backslash and before
the delimiter. -/
def escapedChar (delimiter c : Char) : List Char :=
  if c = '\\' ∨ c = delimiter then ['\\', c] else [c]

/-- The text between delimiters. -/
def enclosed (delimiter : Char) (s : String) : List Char :=
  delimiter :: (s.toList.flatMap (escapedChar delimiter) ++ [delimiter])

/-- A character is written as an item that means it. -/
theorem exists_item_escapedChar (hdelimiter : delimiter = '"' ∨ delimiter = '\x60') (c : Char) :
    ∃ item : Item delimiter, item.written = escapedChar delimiter c ∧ item.meaning = c := by
  by_cases hescape : c = '\\' ∨ c = delimiter
  · refine ⟨.escaped c, (if_pos hescape).symm, ?_⟩
    -- neither the backslash nor a delimiter is one of the letters
    rcases hescape with rfl | rfl
    · rfl
    · rcases hdelimiter with rfl | rfl <;> rfl
  · exact ⟨.plain c (not_or.mp hescape), (if_neg hescape).symm, rfl⟩

/-- A text is written as items that mean its characters. -/
theorem exists_items_escapedChar (hdelimiter : delimiter = '"' ∨ delimiter = '\x60')
    (cs : List Char) :
    ∃ items : List (Item delimiter),
      items.flatMap written = cs.flatMap (escapedChar delimiter) ∧ items.map meaning = cs := by
  induction cs with
  | nil => exact ⟨[], rfl, rfl⟩
  | cons c cs ih =>
    obtain ⟨item, hwritten, hmeaning⟩ := exists_item_escapedChar hdelimiter c
    obtain ⟨items, hitems, hmeanings⟩ := ih
    refine ⟨item :: items, ?_, ?_⟩
    · rw [List.flatMap_cons, List.flatMap_cons, hwritten, hitems]
    · rw [List.map_cons, hmeaning, hmeanings]

/-- An enclosed text is read back, and its end is found, whatever follows. -/
theorem delimited_enclosed (hdelimiter : delimiter = '"' ∨ delimiter = '\x60') (s : String)
    (after : List Char) :
    delimited (enclosed delimiter s ++ after) = .ok (s, (enclosed delimiter s).length) := by
  obtain ⟨items, hitems, hmeanings⟩ := exists_items_escapedChar hdelimiter s.toList
  have hbackslash : delimiter ≠ '\\' := by rcases hdelimiter with rfl | rfl <;> decide
  have hread := textUpTo_items hbackslash items after
  rw [hitems, hmeanings] at hread
  rw [enclosed, List.cons_append, List.append_assoc, List.singleton_append, delimited, hread]
  simp

end

/-! ## 4. Literals in a program -/

/-- **A text between delimiters is read exactly if there is one.** A delimiter stands at position
`start`. Reading answers a text and a length exactly if as many characters from there on are items
between two delimiters, and the text is what the items mean. There is no more than one place where
such a literal can end. If there is none the literal is open, which is a fault at `start`. And any
text at all, put between delimiters with a backslash before each backslash and each delimiter, is
read back as it is, up to the delimiter behind it and no further, whatever stands around it. -/
theorem delimited_decodes {text : List Char} {start : Fin text.length} {delimiter : Char}
    (hopening : text.get start = delimiter) (hdelimiter : delimiter = '"' ∨ delimiter = '\x60') :
    (∀ decoded n, delimited (text.drop start) = .ok (decoded, n) ↔
      ∃ items : List (Item delimiter), IsDelimited text start items (start + n) ∧
        decoded = String.ofList (items.map meaning)) ∧
    (∀ (items items' : List (Item delimiter)) (stop stop' : Nat),
      IsDelimited text start items stop → IsDelimited text start items' stop' → stop = stop') ∧
    ((¬ ∃ (items : List (Item delimiter)) (stop : Nat), IsDelimited text start items stop) →
      ∃ fault, delimited (text.drop start) = .error fault ∧
        fault.message = "unterminated string literal" ∧
        unitEnd text start = .error (.misread start (.literal fault))) ∧
    ∀ (before : List Char) (s : String) (after : List Char),
      delimited ((before ++ enclosed delimiter s ++ after).drop before.length) =
        .ok (s, (enclosed delimiter s).length) := by
  have hbackslash : delimiter ≠ '\\' := by rcases hdelimiter with rfl | rfl <;> decide
  have hget : text[(start : Nat)]? = some delimiter := by
    rw [List.getElem?_eq_getElem start.isLt]
    exact congrArg some hopening
  refine ⟨fun decoded n => delimited_eq_ok_iff hbackslash hget,
    fun items items' stop stop' h h' => h.stop_unique hbackslash h', fun hnone => ?_,
    fun before s after => ?_⟩
  · cases hread : delimited (text.drop start) with
    | ok found =>
      obtain ⟨items, hitems, -⟩ := (delimited_eq_ok_iff hbackslash hget).mp hread
      exact absurd ⟨items, _, hitems⟩ hnone
    | error fault =>
      obtain rfl := delimited_eq_error hread
      refine ⟨.openText, rfl, rfl, unitEnd_eq_error_iff.mpr ⟨.openText, ?_, rfl⟩⟩
      have hhead : text[start] = delimiter := hopening
      rw [drop_of_getElem? hget] at hread
      rw [hhead]
      rcases hdelimiter with rfl | rfl <;> exact congrArg (Except.map _) hread
  · rw [List.append_assoc, List.drop_left, delimited_enclosed hdelimiter]

/-- The quote mark at 1 opens a literal with both delimiters, a tabulator and a backslash in it; its
end is behind the third quote mark. -/
theorem delimited_decodes_both_delimiters :
    let text := "x\"a\\t\x60\\\"\\\\\" \"".toList
    text[1]? = some '"' ∧ delimited (text.drop 1) = .ok ("a\t\x60\"\\", 10) := by
  intro text
  let items : List (Item '"') := [.plain 'a' (by decide), .escaped 't', .plain '\x60' (by decide),
    .escaped '"', .escaped '\\']
  let start : Fin text.length := ⟨1, by decide⟩
  have hopening : text.get start = '"' := rfl
  have hread := (delimited_decodes hopening (.inl rfl)).1
  exact ⟨rfl, (hread _ _).mpr ⟨items, ⟨rfl, by decide, by decide, rfl⟩, rfl⟩⟩

end GlyphStack.Program
