import GlyphStack.Fault

/-!
Program text is read in units: a literal with everything that belongs to it, or a single character.
Each scanner looks at the rest of the text from the first character of a unit on and counts
characters from there, so what it answers hangs on that rest alone. `lexemesFrom` cuts a whole text
into units, as far as they can be read.
-/

namespace GlyphStack.Program

/-- Whether `c` continues a name. -/
def isNameChar (c : Char) : Bool :=
  c.isAlphanum || c = '_'

/-- How many digits the rest starts with. -/
def digitRun (rest : List Char) : Nat :=
  (rest.takeWhile Char.isDigit).length

/-- How many letters, digits and underscores the rest starts with. -/
def nameRun (rest : List Char) : Nat :=
  (rest.takeWhile isNameChar).length

/-- How many loop exits the rest starts with. -/
def leaveRun (rest : List Char) : Nat :=
  (rest.takeWhile (· = '!')).length

/-- The character after the quote mark that the rest starts with. -/
def character : List Char → Except Malformation Char
  | _ :: c :: _ => .ok c
  | _ => .error .noCharacter

/-- What a character stands for after a backslash. -/
def unescape (c : Char) : Char :=
  if c = 'r' then '\r' else if c = 'n' then '\n' else if c = 't' then '\t' else c

/-- Reads up to the next delimiter that no backslash precedes: the text before it, and how many
characters it takes with the delimiter. -/
def textUpTo (delimiter : Char) : List Char → Option (List Char × Nat)
  | [] => none
  | c :: rest =>
      if c = '\\' then
        match rest with
        | [] => none
        | escaped :: rest =>
            (textUpTo delimiter rest).map fun (text, n) => (unescape escaped :: text, n + 2)
      else if c = delimiter then some ([], 1)
      else (textUpTo delimiter rest).map fun (text, n) => (c :: text, n + 1)

/-- The text of the delimited literal that the rest starts with, and the length of the literal. -/
def delimited : List Char → Except Malformation (String × Nat)
  | [] => .error .openText
  | delimiter :: rest =>
      match textUpTo delimiter rest with
      | some (text, n) => .ok (String.ofList text, n + 1)
      | none => .error .openText

/-- Where the parenthesis stands that closes the last of `depth` open ones. -/
def closingParen : (depth : Nat) → List Char → Option Nat
  | _, [] => none
  | depth, c :: rest =>
      if c = '(' then (closingParen (depth + 1) rest).map (· + 1)
      else if c = ')' then
        if depth ≤ 1 then some 0 else (closingParen (depth - 1) rest).map (· + 1)
      else (closingParen depth rest).map (· + 1)

/-- Where the parenthesis stands that balances the one the rest starts with. -/
def parenClose (rest : List Char) : Except Malformation Nat :=
  match closingParen 0 rest with
  | some n => .ok n
  | none => .error .openParen

/-- How many characters belong to a unit after its first one. -/
def unitTail (first : Char) (rest : List Char) : Except Malformation Nat :=
  if first = '\'' then (character (first :: rest)).map fun _ => 1
  else if first = '"' ∨ first = '\x60' then (delimited (first :: rest)).map fun (_, n) => n - 1
  else if first = '(' then parenClose (first :: rest)
  else if first.isDigit && first != '0' then .ok (digitRun rest)
  else if first.isAlpha then .ok (nameRun rest)
  else .ok 0

/-- The position after the unit that starts at position `start` of a text, or the fault that this
unit cannot be read. -/
def unitEnd (text : List Char) (start : Fin text.length) : Except Fault Nat :=
  match unitTail text[start] (text.drop (start + 1)) with
  | .ok tail => .ok (start + 1 + tail)
  | .error fault => .error (.misread start (.literal fault))

theorem unitEnd_eq_ok_iff {text : List Char} {start : Fin text.length} {next : Nat} :
    unitEnd text start = .ok next ↔
      ∃ tail, unitTail text[start] (text.drop (start + 1)) = .ok tail ∧ start + 1 + tail = next := by
  unfold unitEnd
  cases unitTail text[start] (text.drop (start + 1)) <;> simp

theorem unitEnd_eq_error_iff {text : List Char} {start : Fin text.length} {fault : Fault} :
    unitEnd text start = .error fault ↔
      ∃ cause, unitTail text[start] (text.drop (start + 1)) = .error cause ∧
        .misread start (.literal cause) = fault := by
  unfold unitEnd
  cases unitTail text[start] (text.drop (start + 1)) <;> simp

/-- A unit of program text: where it starts, with which character, and how many more it has. -/
structure Lexeme where
  start : Nat
  first : Char
  tail : Nat
deriving DecidableEq, Repr

/-- The position after a unit. -/
def Lexeme.stop (lexeme : Lexeme) : Nat :=
  lexeme.start + 1 + lexeme.tail

/-- The units of a text in order, up to its end or to the first one that cannot be read; of that
one the position and what is wrong with it. -/
structure Lexing where
  lexemes : List Lexeme
  stopped : Option (Nat × Malformation)
deriving DecidableEq, Repr

/-- Cuts into units what a text holds from position `start` on. -/
def lexFrom (start : Nat) : List Char → Lexing
  | [] => { lexemes := [], stopped := none }
  | c :: rest =>
      match unitTail c rest with
      | .error fault => { lexemes := [], stopped := some (start, fault) }
      | .ok tail =>
          let lexing := lexFrom (start + 1 + tail) (rest.drop tail)
          { lexing with lexemes := { start, first := c, tail } :: lexing.lexemes }
termination_by rest => rest.length
decreasing_by simp only [List.length_drop, List.length_cons]; omega

@[simp] theorem lexFrom_nil (start : Nat) :
    lexFrom start [] = { lexemes := [], stopped := none } := by
  rw [lexFrom]

/-- A unit that can be read comes first, and the text is cut on behind it. -/
theorem lexFrom_cons_ok {start tail : Nat} {c : Char} {rest : List Char}
    (h : unitTail c rest = .ok tail) :
    lexFrom start (c :: rest) =
      { lexemes := { start, first := c, tail } ::
          (lexFrom (start + 1 + tail) (rest.drop tail)).lexemes
        stopped := (lexFrom (start + 1 + tail) (rest.drop tail)).stopped } := by
  rw [lexFrom, h]

/-- A unit that cannot be read ends the cutting. -/
theorem lexFrom_cons_error {start : Nat} {c : Char} {rest : List Char} {fault : Malformation}
    (h : unitTail c rest = .error fault) :
    lexFrom start (c :: rest) = { lexemes := [], stopped := some (start, fault) } := by
  rw [lexFrom, h]

end GlyphStack.Program
