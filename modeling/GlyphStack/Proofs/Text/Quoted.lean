import Mathlib.Tactic.SplitIfs
import GlyphStack.Text.Quoted

/-!
Quoted texts can be read back. Each character is written so that its end shows: a name after a
backslash is one character long, a code point ends at its brace, and any other character stands for
itself. No character is written with a quote in front, so the first quote that is not part of a
written character is the closing one. So a quoted text tells which text it quotes and where it ends,
whatever comes after it.
-/

namespace GlyphStack.Text

variable {c : Char} {cs ds rest rest' : List Char}

/-! ## 1. Code points -/

/-- The number that a hexadecimal digit stands for. -/
def hexDigit (c : Char) : Nat :=
  if c.isDigit then c.toNat - '0'.toNat else c.toNat - 'a'.toNat + 10

/-- The number that hexadecimal digits spell. -/
def hexValue (digits : List Char) : Nat :=
  digits.foldl (fun n c => 16 * n + hexDigit c) 0

theorem hexValue_toDigits (n : Nat) : hexValue (Nat.toDigits 16 n) = n := by
  have hdigit : ∀ k < 16, hexDigit (Nat.digitChar k) = k := by decide
  induction n using Nat.strongRecOn with
  | _ n ih =>
    rcases Nat.lt_or_ge n 16 with hlt | hge
    · rw [Nat.toDigits_of_lt_base hlt, hexValue, List.foldl_cons, List.foldl_nil, hdigit n hlt,
        Nat.mul_zero, Nat.zero_add]
    · have ih := ih (n / 16) (Nat.div_lt_self (by omega) (by decide))
      rw [hexValue] at ih
      rw [Nat.toDigits_of_base_le (by decide) hge, hexValue, List.foldl_append, ih, List.foldl_cons,
        List.foldl_nil, hdigit _ (Nat.mod_lt n (by decide)), Nat.div_add_mod]

theorem ne_brace_of_mem_toDigits {n : Nat} (h : c ∈ Nat.toDigits 16 n) : c ≠ '\x7d' := by
  have hdigit : ∀ k < 16, Nat.digitChar k ≠ '\x7d' := by decide
  induction n using Nat.strongRecOn with
  | _ n ih =>
    rcases Nat.lt_or_ge n 16 with hlt | hge
    · rw [Nat.toDigits_of_lt_base hlt, List.mem_singleton] at h
      exact h ▸ hdigit n hlt
    · rw [Nat.toDigits_of_base_le (by decide) hge, List.mem_append, List.mem_singleton] at h
      rcases h with h | rfl
      · exact ih (n / 16) (Nat.div_lt_self (by omega) (by decide)) h
      · exact hdigit _ (Nat.mod_lt n (by decide))

/-! ## 2. Characters -/

/-- The character that a name after a backslash stands for. -/
def namedChar (c : Char) : Char :=
  if c = '0' then '\x00'
  else if c = 't' then '\t'
  else if c = 'r' then '\r'
  else if c = 'n' then '\n'
  else c

/-- Reads what follows a backslash: a code point in braces, or a name. -/
def readEscape : List Char → Option (Char × List Char)
  | [] => none
  | c :: rest =>
      if c = 'u' then
        let digits := (rest.drop 1).takeWhile (· ≠ '\x7d')
        some (Char.ofNat (hexValue digits), (rest.drop 1).drop (digits.length + 1))
      else some (namedChar c, rest)

/-- Reads one character as it is written between quotes. -/
def readChar : List Char → Option (Char × List Char)
  | [] => none
  | c :: rest => if c = '\\' then readEscape rest else some (c, rest)

/-- A written character is read as the character, up to its end. -/
theorem readChar_quotedChar (c : Char) (rest : List Char) :
    readChar (quotedChar c ++ rest) = some (c, rest) := by
  have hdigits : (Nat.toDigits 16 c.toNat ++ '\x7d' :: rest).takeWhile (· ≠ '\x7d') =
      Nat.toDigits 16 c.toNat := by
    rw [List.takeWhile_append_of_pos fun d hd => by simpa using ne_brace_of_mem_toDigits hd]
    simp
  unfold quotedChar
  split_ifs with hnull htab hreturn hnewline hquote hbackslash hunprintable
  · subst hnull
    rfl
  · subst htab
    rfl
  · subst hreturn
    rfl
  · subst hnewline
    rfl
  · subst hquote
    rfl
  · subst hbackslash
    rfl
  · simp only [List.cons_append, List.nil_append, List.append_assoc, readChar, readEscape, if_true,
      List.drop_succ_cons, List.drop_zero, hdigits, hexValue_toDigits, Char.ofNat_toNat]
    rw [List.drop_append]
    simp
  · simp [readChar, hbackslash]

/-- No character is written with a quote in front. -/
theorem quotedChar_append_ne_quote (c : Char) (rest rest' : List Char) :
    quotedChar c ++ rest ≠ '"' :: rest' := by
  unfold quotedChar
  split_ifs <;> simp_all

/-! ## 3. Texts -/

theorem flatMap_quotedChar_inj
    (h : cs.flatMap quotedChar ++ '"' :: rest = ds.flatMap quotedChar ++ '"' :: rest') :
    cs = ds ∧ rest = rest' := by
  induction cs generalizing ds with
  | nil =>
    cases ds with
    | nil => simpa using h
    | cons d ds =>
      rw [List.flatMap_cons, List.append_assoc] at h
      exact absurd h.symm (quotedChar_append_ne_quote d _ _)
  | cons c cs ih =>
    cases ds with
    | nil =>
      rw [List.flatMap_cons, List.append_assoc] at h
      exact absurd h (quotedChar_append_ne_quote c _ _)
    | cons d ds =>
      rw [List.flatMap_cons, List.flatMap_cons, List.append_assoc, List.append_assoc] at h
      have hread := congrArg readChar h
      rw [readChar_quotedChar, readChar_quotedChar, Option.some.injEq, Prod.mk.injEq] at hread
      obtain ⟨rfl, hrest⟩ := hread
      obtain ⟨rfl, rfl⟩ := ih hrest
      exact ⟨rfl, rfl⟩

/-- **A quoted text tells what it quotes and where it ends.** -/
theorem quoted_append_inj (h : quoted cs ++ rest = quoted ds ++ rest') : cs = ds ∧ rest = rest' := by
  simp only [quoted, List.cons_append, List.append_assoc, List.nil_append, List.cons.injEq,
    true_and] at h
  exact flatMap_quotedChar_inj h

end GlyphStack.Text
