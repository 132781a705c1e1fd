import Reckoner.Text.Digit
import Reckoner.Number.Binary64

/-!
# Reading numerals

Two ways to read a numeral that has been brought to its plain form: as an integer, and as a
floating-point number. In plain form the blanks around it are gone, its digits are in ASCII and
nothing groups them.

* `Numeral.ungrouped?` -- an underscore groups digits and is dropped; it must stand between two of
  them, so two underscores in a row, or one beside a sign, a point or an exponent mark, spoil the
  numeral. `ungrouped?_of_notMem` says that nothing else is changed;
* `Numeral.plain?` -- the plain form;
* `Numeral.natural` -- the value of a run of digits;
* `Numeral.integer?` -- a sign and digits, and no more digits than `Numeral.longestInteger`;
* `Numeral.float?` -- a sign, then digits with a point and an exponent, or one of the names of the
  infinities and of not-a-number.
-/

namespace Reckoner

namespace Numeral

/-! ## 1. The plain form -/

/-- Drops the underscores, each of which must stand between two digits; `afterDigit` says whether a
    digit stands in front of the text. -/
def ungroupedAfter (afterDigit : Bool) : Text → Option Text
  | [] => some []
  | [c] => if c = '_' then none else some [c]
  | c :: d :: rest =>
      if c = '_' then
        if afterDigit && d.isDigit then ungroupedAfter true (d :: rest) else none
      else (ungroupedAfter c.isDigit (d :: rest)).map (c :: ·)

/-- A numeral without the underscores that group its digits. -/
def ungrouped? (t : Text) : Option Text := ungroupedAfter false t

theorem ungroupedAfter_of_notMem : ∀ (t : Text) (afterDigit : Bool), '_' ∉ t →
    ungroupedAfter afterDigit t = some t
  | [], _, _ => rfl
  | [c], _, h => by
      have hc : c ≠ '_' := fun e => h (by simp [e])
      simp [ungroupedAfter, hc]
  | c :: d :: rest, _, h => by
      have hc : c ≠ '_' := fun e => h (by simp [e])
      have ih := ungroupedAfter_of_notMem (d :: rest) c.isDigit fun m => h (List.mem_cons_of_mem c m)
      simp [ungroupedAfter, hc, ih]

/-- **A numeral without underscores is left as it is.** -/
theorem ungrouped?_of_notMem {t : Text} (h : '_' ∉ t) : ungrouped? t = some t :=
  ungroupedAfter_of_notMem t false h

/-- The plain form of a numeral, unless an underscore stands where it groups nothing. -/
def plain? (t : Text) : Option Text := ungrouped? t.plainNumeral

/-! ## 2. Digits and signs -/

/-- The value of a run of decimal digits, read after a number that stands before it. -/
def naturalFrom (n : Nat) (digits : Text) : Nat :=
  digits.foldl (fun m c => 10 * m + (c.toNat - 48)) n

/-- The value of a run of decimal digits. -/
def natural (digits : Text) : Nat := naturalFrom 0 digits

@[simp] theorem natural_nil : natural [] = 0 := rfl

theorem natural_append_singleton (digits : Text) (c : Char) :
    natural (digits ++ [c]) = 10 * natural digits + (c.toNat - 48) := by
  simp [natural, naturalFrom]

/-- Splits off a sign: whether it is a minus, and what follows it. -/
def sign : Text → Bool × Text
  | '-' :: rest => (true, rest)
  | '+' :: rest => (false, rest)
  | rest => (false, rest)

/-- Splits off the longest run of decimal digits. -/
def digitRun (t : Text) : Text × Text :=
  (t.takeWhile Char.isDigit, t.dropWhile Char.isDigit)

/-! ## 3. Integers -/

/-- An integer of more digits than this is not read as one. Zeros in front count. -/
def longestInteger : Nat := 4300

/-- A sign and digits, all of the text. -/
def integer? (t : Text) : Option Int :=
  let (negative, digits) := sign t
  if digits.isEmpty || !digits.all Char.isDigit || longestInteger < digits.length then none
  else
    let n : Int := natural digits
    some (if negative then -n else n)

/-! ## 4. Floating-point numbers -/

/-- The digits after a point, and what follows them; nothing when no point stands there. -/
def fraction : Text → Text × Text
  | '.' :: rest => digitRun rest
  | rest => ([], rest)

/-- The exponent that ends a numeral; no mark at all means zero. -/
def exponent? : Text → Option Int
  | [] => some 0
  | c :: rest =>
      if c = 'e' || c = 'E' then
        let (negative, digits) := sign rest
        if digits.isEmpty || !digits.all Char.isDigit then none
        else
          let n : Int := natural digits
          some (if negative then -n else n)
      else none

/-- Digits with a point and an exponent. A point may stand first or last, but not alone. -/
def decimal? (negative : Bool) (t : Text) : Option Binary64 :=
  let (whole, afterWhole) := digitRun t
  let (part, afterPart) := fraction afterWhole
  if whole.isEmpty && part.isEmpty then none
  else
    (exponent? afterPart).map fun e =>
      Binary64.ofDecimal negative (natural (whole ++ part)) (e - part.length)

/-- The numbers that are written by name, in letters of either case. -/
def named? (negative : Bool) (t : Text) : Option Binary64 :=
  let name := t.map Char.toLower
  if name = "inf".toList || name = "infinity".toList then some (.infinite negative)
  else if name = "nan".toList then some .nan
  else none

/-- A signed number in digits or by name, all of the text. -/
def float? (t : Text) : Option Binary64 :=
  let (negative, rest) := sign t
  (decimal? negative rest).or (named? negative rest)

end Numeral

end Reckoner
