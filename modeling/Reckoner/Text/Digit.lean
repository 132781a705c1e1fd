import Reckoner.Text

/-!
# Digits of any script and the blanks around a numeral

A numeral may be written in the decimal digits of any script, and blanks may stand around it.

* `Text.digitZeros` -- the zero of each run of ten decimal digits (category Nd of Unicode 14);
* `Text.digit?` -- the value of a decimal digit;
* `Text.isNumeralBlank` -- the blanks that may surround a numeral;
* `Text.plainNumeral` -- a numeral in ASCII: the blanks around it dropped, its digits of any script
  replaced by `0` to `9`. A character that no numeral may hold is kept as it is.
-/

namespace Reckoner

namespace Text

/-! ## 1. Digits -/

/-- The zeros of the scripts; the other nine digits follow each of them directly. -/
def digitZeros : List Nat :=
  [0x30, 0x660, 0x6F0, 0x7C0, 0x966, 0x9E6, 0xA66, 0xAE6, 0xB66, 0xBE6, 0xC66, 0xCE6, 0xD66,
    0xDE6, 0xE50, 0xED0, 0xF20, 0x1040, 0x1090, 0x17E0, 0x1810, 0x1946, 0x19D0, 0x1A80, 0x1A90,
    0x1B50, 0x1BB0, 0x1C40, 0x1C50, 0xA620, 0xA8D0, 0xA900, 0xA9D0, 0xA9F0, 0xAA50, 0xABF0,
    0xFF10, 0x104A0, 0x10D30, 0x11066, 0x110F0, 0x11136, 0x111D0, 0x112F0, 0x11450, 0x114D0,
    0x11650, 0x116C0, 0x11730, 0x118E0, 0x11950, 0x11C50, 0x11D50, 0x11DA0, 0x16A60, 0x16AC0,
    0x16B50, 0x1D7CE, 0x1D7D8, 0x1D7E2, 0x1D7EC, 0x1D7F6, 0x1E140, 0x1E2F0, 0x1E950, 0x1FBF0]

/-- The value of a decimal digit of any script. -/
def digit? (c : Char) : Option Nat :=
  (digitZeros.find? fun first => first ≤ c.toNat && c.toNat ≤ first + 9).map (c.toNat - ·)

/-- The ASCII digit of a value below ten. -/
def digitChar (d : Nat) : Char := Char.ofNat (48 + d)

/-! ## 2. Blanks -/

/-- The blanks that may surround a numeral: tab to carriage return and the space, and the spaces
    and line separators beyond ASCII. -/
def isNumeralBlank (c : Char) : Bool :=
  let n := c.toNat
  (9 ≤ n && n ≤ 13) || n = 0x20 || n = 0x85 || n = 0xA0 || n = 0x1680 ||
    (0x2000 ≤ n && n ≤ 0x200A) || n = 0x2028 || n = 0x2029 || n = 0x202F || n = 0x205F ||
    n = 0x3000

/-- A numeral without the blanks around it, its digits in ASCII. -/
def plainNumeral (t : Text) : Text :=
  let bare := ((t.dropWhile isNumeralBlank).reverse.dropWhile isNumeralBlank).reverse
  bare.map fun c => ((digit? c).map digitChar).getD c

end Text

end Reckoner
