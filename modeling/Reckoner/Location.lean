import Reckoner.Text

/-!
# Locations and spans

Where something stands in a text, and from where to where it reaches. Lines and columns count from
one and offsets from zero, but a location is a plain record and holds any three integers.

* `Location.pass` -- the line and the column behind one more character;
* `Span.Contains` -- one span lies within another, by their offsets alone;
* `Location.text`, `Span.text` -- `line:column`, and two of these with a dash between.
-/

namespace Reckoner

/-- A place in a text. -/
structure Location where
  line : Int
  column : Int
  offset : Int
  deriving DecidableEq, Repr, Inhabited

namespace Location

/-- The first place of every text. -/
def origin : Location := ⟨1, 1, 0⟩

/-- The line and the column behind one more character; a line feed starts a line. -/
def pass (here : Location) (c : Char) : Location :=
  if c = '\n' then { here with line := here.line + 1, column := 1 }
  else { here with column := here.column + 1 }

@[simp] theorem pass_offset (here : Location) (c : Char) : (here.pass c).offset = here.offset := by
  unfold pass
  split <;> rfl

/-- `line:column`. -/
def text (here : Location) : Text :=
  Text.ofInt here.line ++ ':' :: Text.ofInt here.column

/-- All three counts, by position. -/
def fullText (here : Location) : Text :=
  "SourceLocation(".toList ++ Text.ofInt here.line ++ ", ".toList ++ Text.ofInt here.column ++
    ", ".toList ++ Text.ofInt here.offset ++ [')']

end Location

/-- A stretch of a text. -/
structure Span where
  start : Location
  stop : Location
  deriving DecidableEq, Repr, Inhabited

namespace Span

/-- The span that covers nothing. -/
def empty (here : Location) : Span := ⟨here, here⟩

/-- The inner span lies within the outer one; only offsets count. -/
def Contains (outer inner : Span) : Prop :=
  outer.start.offset ≤ inner.start.offset ∧ inner.stop.offset ≤ outer.stop.offset

instance (outer inner : Span) : Decidable (outer.Contains inner) :=
  inferInstanceAs (Decidable (_ ∧ _))

theorem contains_refl (s : Span) : s.Contains s := ⟨Int.le_refl _, Int.le_refl _⟩

theorem Contains.trans {a b c : Span} (hab : a.Contains b) (hbc : b.Contains c) : a.Contains c :=
  ⟨Int.le_trans hab.1 hbc.1, Int.le_trans hbc.2 hab.2⟩

/-- `line:column-line:column`. -/
def text (s : Span) : Text := s.start.text ++ '-' :: s.stop.text

/-- What a text holds between the two ends of a span. -/
def cut (s : Span) (source : Text) : Text := source.slice s.start.offset s.stop.offset

end Span

end Reckoner
