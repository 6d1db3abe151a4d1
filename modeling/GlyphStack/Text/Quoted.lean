import GlyphStack.Text.Unprintable

/-!
The quoted form of a text, used wherever a text stands inside an array: double quotes around it,
and inside it a name for the usual controls, a backslash before quote and backslash, and the code
point of every other character that cannot be seen.
-/

namespace GlyphStack.Text

/-- How one character is written between quotes. -/
def quotedChar (c : Char) : List Char :=
  if c = '\x00' then ['\\', '0']
  else if c = '\t' then ['\\', 't']
  else if c = '\r' then ['\\', 'r']
  else if c = '\n' then ['\\', 'n']
  else if c = '"' then ['\\', '"']
  else if c = '\\' then ['\\', '\\']
  else if isUnprintable c then ['\\', 'u', '{'] ++ Nat.toDigits 16 c.toNat ++ ['}']
  else [c]

/-- The quoted form of a text. -/
def quoted (cs : List Char) : List Char :=
  '"' :: cs.flatMap quotedChar ++ ['"']

end GlyphStack.Text
