import Reckoner.Text
import Reckoner.Number.Shortest

/-!
# How a floating-point number is laid out

The digits of a number are laid out around its point, or with an exponent when the point is far
away.

* `Layout` -- the choices: from where to where numbers are written out, and how wide an exponent is;
* `Layout.digits` -- digits and a point position as a text;
* `Binary64.text` -- the text of any number of the format.
-/

namespace Reckoner

/-- The choices of a layout. A number between one and ten has point position one. -/
structure Layout where
  /-- The least point position that is written out. -/
  leastPoint : Int
  /-- The greatest point position that is written out. -/
  greatestPoint : Int
  /-- The least number of digits of an exponent. -/
  exponentWidth : Nat
  deriving DecidableEq, Repr

namespace Layout

/-- A point is always written: `.0` stands where no digit follows it. -/
def writtenOut (digits : Text) (point : Int) : Text :=
  if point ≤ 0 then '0' :: '.' :: List.replicate (-point).toNat '0' ++ digits
  else
    let whole := digits.take point.toNat
    let fraction := digits.drop point.toNat
    whole ++ List.replicate (point.toNat - whole.length) '0' ++ '.' ::
      (if fraction.isEmpty then ['0'] else fraction)

/-- One digit, the others after a point if there are any, and the signed exponent. -/
def scientific (layout : Layout) (digits : Text) (point : Int) : Text :=
  let order := point - 1
  let exponent := Nat.toDigits 10 order.natAbs
  digits.take 1 ++ (if (digits.drop 1).isEmpty then [] else '.' :: digits.drop 1) ++
    'e' :: (if order < 0 then '-' else '+') ::
    List.replicate (layout.exponentWidth - exponent.length) '0' ++ exponent

/-- Digits and a point position as a text. -/
def digits (layout : Layout) (ds : Text) (point : Int) : Text :=
  if layout.leastPoint ≤ point && point ≤ layout.greatestPoint then writtenOut ds point
  else layout.scientific ds point

end Layout

/-- The text of a number: `inf` and `nan` by name, a zero as `0.0`, all others by the fewest digits
    that read back. -/
def Binary64.text (layout : Layout) : Binary64 → Text
  | .nan => "nan".toList
  | .infinite negative => (if negative then ['-'] else []) ++ "inf".toList
  | .finite negative significand exponent =>
      (if negative then ['-'] else []) ++
        if significand = 0 then "0.0".toList
        else
          let (ds, point) := Binary64.Cell.shortest ⟨significand, exponent⟩
          layout.digits ds point

end Reckoner
