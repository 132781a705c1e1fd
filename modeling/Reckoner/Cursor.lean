import Reckoner.Fault

/-!
# The reading position

A cursor stands somewhere in a text and knows the line and the column it has come to.

* `Cursor.move` -- on by a number of characters, whatever is left: line and column follow the
  characters passed, the offset goes on by the number. A negative number goes back and passes
  nothing;
* `Cursor.advance` -- the same, but a fault when fewer characters are left;
* `Cursor.skipBlanks` -- single moves as long as a blank stands at the cursor.
-/

namespace Reckoner

/-- A text and a place in it. -/
structure Cursor where
  source : Text
  location : Location
  deriving DecidableEq, Repr

namespace Cursor

/-! ## 1. What stands at the cursor -/

/-- The cursor at the start of a text. -/
def start (source : Text) : Cursor := ⟨source, Location.origin⟩

/-- How many characters are left. -/
def available (c : Cursor) : Int := c.source.length - c.location.offset

/-- The next characters, as many as there are. -/
def peek (c : Cursor) (count : Int) : Text :=
  c.source.slice c.location.offset (c.location.offset + count)

/-- All that is left of the text. -/
def remaining (c : Cursor) : Text :=
  c.source.drop (c.source.index c.location.offset)

/-- The character at the cursor. -/
def current? (c : Cursor) : Option Char := c.source.charAt? c.location.offset

/-- Whether the text has been read up. -/
def atEnd (c : Cursor) : Bool := c.source.length ≤ c.location.offset

/-! ## 2. Moving -/

/-- The cursor behind `count` more characters. -/
def move (c : Cursor) (count : Int) : Cursor :=
  { c with
    location :=
      { (c.peek count).foldl Location.pass c.location with
        offset := c.location.offset + count } }

/-- Passes `count` characters, which must be there. -/
def advance (c : Cursor) (count : Int) : Except Fault Cursor :=
  if c.available < count then .error (.overrun count c.available c.location)
  else .ok (c.move count)

@[simp] theorem move_source (c : Cursor) (count : Int) : (c.move count).source = c.source := rfl

@[simp] theorem move_offset (c : Cursor) (count : Int) :
    (c.move count).location.offset = c.location.offset + count := rfl

/-! ## 3. Blanks -/

/-- The characters that may stand anywhere between tokens: space, tab and line feed. -/
def blanks : Text := [' ', '\t', '\n']

/-- Whether a character may stand anywhere between tokens. -/
def isBlank (c : Char) : Bool := blanks.contains c

/-- Passes blanks one by one, at most `bound` of them. -/
def skipAtMost : Nat → Cursor → Cursor
  | 0, c => c
  | bound + 1, c =>
      match c.current? with
      | some here => if isBlank here then skipAtMost bound (c.move 1) else c
      | none => c

/-- Passes all the blanks at the cursor. -/
def skipBlanks (c : Cursor) : Cursor := skipAtMost c.available.toNat c

/-! ## 4. As a text -/

/-- The offset, the line and the column by name. -/
def fullText (c : Cursor) : Text :=
  "Cursor(pos=".toList ++ Text.ofInt c.location.offset ++ ", line=".toList ++
    Text.ofInt c.location.line ++ ", column=".toList ++ Text.ofInt c.location.column ++ [')']

end Cursor

end Reckoner
