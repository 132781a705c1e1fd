import Reckoner.Number.Binary64

/-!
# The fewest digits that read back

A finite number of the format is written with the fewest decimal digits whose value rounds to it
again, and among those with the digits nearest to it.

* `Binary64.Cell` -- a number seen as the interval of the values that round to it;
* `Cell.Holds` -- whether a decimal lies in that interval, decided in exact arithmetic;
* `Cell.onGrid?` -- the best of the two neighbours of the number among the decimals of a given
  number of digits, if one of them reads back;
* `Cell.shortest` -- the first hit among one to seventeen digits.
-/

namespace Reckoner

namespace Binary64

/-! ## 1. The values that round to a number -/

/-- The positive number `significand * 2 ^ exponent`, as what rounds to it. -/
structure Cell where
  significand : Nat
  exponent : Int
  deriving DecidableEq, Repr

namespace Cell

/-- Four times the significand: on this scale the ends of the interval are naturals. -/
def centre (x : Cell) : Nat := 4 * x.significand

/-- Below a power of two the neighbour is half as far away, unless it is among the smallest. -/
def low (x : Cell) : Nat :=
  if x.significand = Nat.pow 2 (significandBits - 1) && leastExponent < x.exponent then x.centre - 1
  else x.centre - 2

/-- The upper end of the interval, on the scale of `centre`. -/
def high (x : Cell) : Nat := x.centre + 2

/-- The binary exponent of the scale of `centre`. -/
def scale (x : Cell) : Int := x.exponent - 2

/-- Compares `c * 10 ^ p` with `m` on the scale of the number. -/
def compareDecimal (x : Cell) (c : Nat) (p : Int) (m : Nat) : Ordering :=
  compare (c * upper 10 p * lower 2 x.scale) (m * upper 2 x.scale * lower 10 p)

/-- Whether `c * 10 ^ p` rounds to the number; the ends do when the significand is even. -/
def Holds (x : Cell) (c : Nat) (p : Int) : Bool :=
  match x.compareDecimal c p x.low, x.compareDecimal c p x.high with
  | .gt, .lt => true
  | .eq, _ => x.significand % 2 = 0
  | _, .eq => x.significand % 2 = 0
  | _, _ => false

/-! ## 2. The digits -/

/-- How many decimal digits stand before the point; when there are none, the zeros directly after
    the point are counted with a minus sign. -/
def pointPosition (x : Cell) : Int :=
  let n := x.significand * upper 2 x.exponent
  let d := lower 2 x.exponent
  if d ≤ n then (Nat.toDigits 10 (n / d)).length
  else 1 - (Nat.toDigits 10 ((d - 1) / n)).length

/-- The decimal `c * 10 ^ p` of `count` digits that is nearest to the number, if it reads back. -/
def onGrid? (x : Cell) (count : Nat) : Option (Nat × Int) :=
  let p := x.pointPosition - count
  let n := x.significand * upper 2 x.exponent * lower 10 p
  let d := lower 2 x.exponent * upper 10 p
  let below := n / d
  match x.Holds below p, x.Holds (below + 1) p with
  | true, true => some (Number.roundDiv n d, p)
  | true, false => some (below, p)
  | false, true => some (below + 1, p)
  | false, false => none

/-- The digits of the shortest decimal that reads back, without zeros at the end, and the number of
    them before the point. Seventeen digits always suffice. -/
def shortest (x : Cell) : List Char × Int :=
  let (c, p) := ((List.range 17).findSome? fun k => x.onGrid? (k + 1)).getD (0, 0)
  let digits := Nat.toDigits 10 c
  ((digits.reverse.dropWhile (· = '0')).reverse, digits.length + p)

end Cell

end Binary64

end Reckoner
