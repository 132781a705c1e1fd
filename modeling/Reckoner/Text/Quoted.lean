import Reckoner.Text.Printable

/-!
# Quotations

Two ways to show a text inside another one.

* `Text.quoted` -- in double quotes, for the lines of a tree: quotes, backslashes and the controls
  below the blank are escaped and all else is written as it is, so a quotation never breaks a line;
* `Text.cited` -- in single quotes, for messages: single quotes give way to double ones when the
  text holds single quotes and no double ones, and what a reader could not see is escaped by its
  code point.
-/

namespace Reckoner

namespace Text

/-! ## 1. In double quotes -/

/-- One character of a double-quoted text. -/
def escaped (c : Char) : Text :=
  if c = '"' then ['\\', '"']
  else if c = '\\' then ['\\', '\\']
  else if c = '\n' then ['\\', 'n']
  else if c = '\r' then ['\\', 'r']
  else if c = '\t' then ['\\', 't']
  else if c.toNat = 8 then ['\\', 'b']
  else if c.toNat = 12 then ['\\', 'f']
  else if c.toNat < 32 then '\\' :: 'u' :: hexadecimal 4 c.toNat
  else [c]

/-- A text in double quotes. -/
def quoted (t : Text) : Text :=
  '"' :: t.flatMap escaped ++ ['"']

/-! ## 2. In single quotes -/

/-- The quotation mark that a cited text is put in. -/
def citationMark (t : Text) : Char :=
  if t.contains '\x27' && !t.contains '"' then '"' else '\x27'

/-- One character of a text cited in the given mark. -/
def citedChar (mark c : Char) : Text :=
  if c = mark || c = '\\' then ['\\', c]
  else if c = '\n' then ['\\', 'n']
  else if c = '\r' then ['\\', 'r']
  else if c = '\t' then ['\\', 't']
  else if isPrintable c then [c]
  else if c.toNat < 0x100 then '\\' :: 'x' :: hexadecimal 2 c.toNat
  else if c.toNat < 0x10000 then '\\' :: 'u' :: hexadecimal 4 c.toNat
  else '\\' :: 'U' :: hexadecimal 8 c.toNat

/-- A text in the quotation marks that suit it. -/
def cited (t : Text) : Text :=
  let mark := t.citationMark
  mark :: t.flatMap (citedChar mark) ++ [mark]

end Text

end Reckoner
