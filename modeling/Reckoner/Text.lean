/-!
# Texts

A text is its list of characters, and every count, column and offset of this library is a count of
characters. Positions are integers, because a reading position may be moved before the start:

* `Text.index` -- where a signed position falls; a negative one is counted from the end;
* `Text.slice` -- the stretch between two signed positions, empty when they are out of order;
* `Text.charAt?` -- the character at a signed position, if the text has one there;
* `Text.lines`, `Text.unlines` -- a text as its lines and back; `unlines_lines` says that nothing
  is lost on the way.
-/

namespace Reckoner

/-- A text, character by character. -/
abbrev Text := List Char

namespace Text

/-! ## 1. Positions -/

/-- Where a signed position falls: a negative one is counted from the end and stops at the start. -/
def index (t : Text) (i : Int) : Nat :=
  if i < 0 then (t.length + i).toNat else i.toNat

/-- The characters from `start` up to, not including, `stop`. -/
def slice (t : Text) (start stop : Int) : Text :=
  let first := t.index start
  (t.drop first).take (t.index stop - first)

/-- The character at a position; a negative position is counted from the end. -/
def charAt? (t : Text) (i : Int) : Option Char :=
  if 0 ≤ i then t[i.toNat]?
  else if 0 ≤ t.length + i then t[(t.length + i).toNat]?
  else none

@[simp] theorem index_natCast (t : Text) (n : Nat) : t.index (n : Int) = n := by
  have h : ¬ (n : Int) < 0 := by omega
  simp [index, h]

theorem slice_natCast (t : Text) (a b : Nat) :
    t.slice (a : Int) (b : Int) = (t.drop a).take (b - a) := by
  simp [slice]

theorem charAt?_natCast (t : Text) (n : Nat) : t.charAt? (n : Int) = t[n]? := by
  simp [charAt?]

/-! ## 2. Lines -/

/-- The lines of a text: what stands before, between and after its line feeds. -/
def lines : Text → List Text
  | [] => [[]]
  | c :: rest =>
      if c = '\n' then [] :: lines rest
      else
        match lines rest with
        | [] => [[c]]
        | line :: others => (c :: line) :: others

/-- Lines joined by line feeds. -/
def unlines (ls : List Text) : Text := List.intercalate ['\n'] ls

theorem lines_ne_nil : ∀ t : Text, t.lines ≠ []
  | [] => by simp [lines]
  | c :: rest => by
      unfold lines
      split
      · simp
      · split <;> simp

/-- **A text is its lines joined again.** -/
theorem unlines_lines : ∀ t : Text, unlines t.lines = t
  | [] => by simp [lines, unlines, List.intercalate]
  | c :: rest => by
      have ih := unlines_lines rest
      unfold lines
      cases h : lines rest with
      | nil => exact absurd h (lines_ne_nil rest)
      | cons line others =>
          rw [h] at ih
          split
          · rename_i hc
            subst hc
            simpa [unlines, List.intercalate] using ih
          · cases others <;> simpa [unlines, List.intercalate] using ih

/-- A line set in by two blanks. -/
def indented (line : Text) : Text := ' ' :: ' ' :: line

/-! ## 3. Numbers in texts -/

/-- An integer in decimal, with a minus sign when it is negative. -/
def ofInt (n : Int) : Text :=
  if n < 0 then '-' :: Nat.toDigits 10 n.natAbs else Nat.toDigits 10 n.natAbs

/-- A number in base sixteen, in small letters, filled up with zeros to a width. -/
def hexadecimal (width n : Nat) : Text :=
  let digits := Nat.toDigits 16 n
  List.replicate (width - digits.length) '0' ++ digits

end Text

end Reckoner
