import Reckoner.Text

/-!
# Numbers as written

A number is written in digits and underscores, perhaps with a fraction and with an exponent that has
no sign. Each of the three parts may consist of underscores alone.

* `Numeral.markedPart` -- a mark and the digits behind it. A point or an exponent mark belongs to
  the number only when a digit or an underscore follows it;
* `Numeral.lexeme?` -- the number at the start of a text.
-/

namespace Reckoner

namespace Numeral

/-- A digit, or an underscore that groups digits. -/
def isDigitOrGroup (c : Char) : Bool := c.isDigit || c = '_'

/-- A mark with the digits behind it, or nothing when the mark or the digits are missing. -/
def markedPart (isMark : Char → Bool) : Text → Text
  | [] => []
  | c :: rest =>
      if isMark c then
        match rest.takeWhile isDigitOrGroup with
        | [] => []
        | digits => c :: digits
      else []

/-- The point of a fraction. -/
def isPoint (c : Char) : Bool := c = '.'

/-- The mark of an exponent. -/
def isExponentMark (c : Char) : Bool := c = 'e' || c = 'E'

/-- The number at the start of a text. -/
def lexeme? (t : Text) : Option Text :=
  match t.takeWhile isDigitOrGroup with
  | [] => none
  | whole =>
      let afterWhole := t.drop whole.length
      let fraction := markedPart isPoint afterWhole
      let exponent := markedPart isExponentMark (afterWhole.drop fraction.length)
      some (whole ++ fraction ++ exponent)

end Numeral

end Reckoner
