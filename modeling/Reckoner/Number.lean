import Reckoner.Number.Layout
import Reckoner.Number.Numeral

/-!
# The numbers of an expression

A number is an integer of any size or a floating-point number.

* `Number.ofLexeme` -- the value of a number as written: underscores group digits and are ignored;
  without a point or an exponent it is an integer, unless it is too long for one; otherwise it is a
  floating-point number, and not-a-number when no digits are left to read;
* `Number.text` -- its text in a tree.
-/

namespace Reckoner

/-- A number of an expression. -/
inductive Number where
  | int (value : Int)
  | float (value : Binary64)
  deriving DecidableEq, Repr

namespace Number

/-- Numbers from 0.0001 up to, not including, ten to the sixteenth are written out; exponents have
    two digits or more. -/
def layout : Layout := ⟨-3, 16, 2⟩

/-- The text of a number. -/
def text : Number → Text
  | .int n => Text.ofInt n
  | .float x => x.text layout

/-- An integer in digits of any script. -/
def integerOf? (t : Text) : Option Int := (Numeral.plain? t).bind Numeral.integer?

/-- A floating-point number in digits of any script, or by name. -/
def floatOf? (t : Text) : Option Binary64 := (Numeral.plain? t).bind Numeral.float?

/-- The floating-point value of a text: what is no numeral has the value not-a-number. -/
def floatOf (t : Text) : Binary64 := (floatOf? t).getD .nan

/-- Whether a point or an exponent mark asks for a floating-point number. -/
def hasFloatMark (t : Text) : Bool :=
  t.contains '.' || t.contains 'e' || t.contains 'E'

/-- The value of a number as written. -/
def ofLexeme (lexeme : Text) : Number :=
  let digits : Text := lexeme.filter (· ≠ '_')
  if digits.isEmpty then .int 0
  else if hasFloatMark digits then .float (floatOf digits)
  else
    match integerOf? digits with
    | some n => .int n
    | none => .float (floatOf digits)

end Number

end Reckoner
