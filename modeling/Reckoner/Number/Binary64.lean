import Reckoner.Number.Rounding

/-!
# Floating-point numbers of 64 bits

A number of the format has a significand of 53 bits and a binary exponent from -1074 to 971; beside
these there are the two infinities and one not-a-number. All arithmetic here is exact arithmetic of
naturals, so that a rounded value can be reasoned about.

* `Binary64` -- the numbers of the format; a finite one is `significand * 2 ^ exponent`;
* `Binary64.ofRatio` -- the number nearest to a quotient of naturals, ties to even, infinity when
  the quotient is beyond the format;
* `Binary64.ofDecimal` -- the number nearest to `digits * 10 ^ exponent`. Decimal exponents far
  outside the format are answered without any power being computed.
-/

namespace Reckoner

/-- A floating-point number of 64 bits. -/
inductive Binary64 where
  | nan
  | infinite (negative : Bool)
  | finite (negative : Bool) (significand : Nat) (exponent : Int)
  deriving DecidableEq, Repr

namespace Binary64

/-! ## 1. The format -/

/-- The number of bits of a significand. -/
def significandBits : Nat := 53

/-- The exponent of the smallest numbers. -/
def leastExponent : Int := -1074

/-- The exponent of the largest numbers. -/
def greatestExponent : Int := 971

/-- Zero, with its sign. -/
def zero (negative : Bool) : Binary64 := .finite negative 0 leastExponent

/-! ## 2. Rounding into the format -/

/-- `base ^ e` as a factor above the line: one when `e` is negative. -/
def upper (base : Nat) (e : Int) : Nat := Nat.pow base e.toNat

/-- `base ^ e` as a factor below the line: one unless `e` is negative. -/
def lower (base : Nat) (e : Int) : Nat := Nat.pow base (-e).toNat

/-- The exponent of the largest power of two that is at most `n / d`, for positive `n` and `d`. -/
def binaryOrder (n d : Nat) : Int :=
  let guess : Int := (Nat.log2 n : Int) - Nat.log2 d
  if n * lower 2 guess < d * upper 2 guess then guess - 1 else guess

/-- The number of the format that is nearest to `n / d`; a tie goes to the even significand. -/
def ofRatio (negative : Bool) (n d : Nat) : Binary64 :=
  if n = 0 then zero negative
  else
    let e := max (binaryOrder n d - (significandBits - 1)) leastExponent
    let m := Number.roundDiv (n * lower 2 e) (d * upper 2 e)
    let full := m = Nat.pow 2 significandBits
    let significand := if full then Nat.pow 2 (significandBits - 1) else m
    let exponent := if full then e + 1 else e
    if greatestExponent < exponent then .infinite negative
    else .finite negative significand exponent

/-- The number of the format that is nearest to `digits * 10 ^ exponent`. -/
def ofDecimal (negative : Bool) (digits : Nat) (exponent : Int) : Binary64 :=
  if digits = 0 then zero negative
  else
    let order : Int := (Nat.toDigits 10 digits).length + exponent
    if 309 < order then .infinite negative
    else if order < -323 then zero negative
    else ofRatio negative (digits * upper 10 exponent) (lower 10 exponent)

end Binary64

end Reckoner
