import Reckoner.Session
import Reckoner.Proofs.Lexing

/-!
# Sessions inside their text

While a text is read the cursor stands between its start and its end. There every step is told by
what is left of the text.

* `Session.Inside`, `Session.rest` -- the cursor stands in the text, and what is left of it;
* `Session.past`, `Session.pastBlanks`, `Session.entered` -- behind some characters, behind the
  blanks, and at the first character of an expression;
* `Session.Onward` -- what any stretch of reading keeps: the text stays, the cursor stays inside and
  does not go back, and reports are only added;
* `runOn_pass_of_le` and its neighbours -- what the steps of the rules do inside a text.
-/

namespace Reckoner

/-! ## 1. Cursors -/

namespace Cursor

/-- The cursor stands in its text. -/
def Inside (c : Cursor) : Prop := 0 ≤ c.location.offset ∧ c.location.offset ≤ c.source.length

theorem Inside.exists_offset {c : Cursor} (h : c.Inside) :
    ∃ k : Nat, c.location.offset = k ∧ k ≤ c.source.length ∧ c.remaining = c.source.drop k := by
  refine ⟨c.location.offset.toNat, (Int.toNat_of_nonneg h.1).symm, by have := h.2; omega, ?_⟩
  unfold remaining Text.index
  rw [if_neg (by have := h.1; omega)]

theorem Inside.available_eq {c : Cursor} (h : c.Inside) : c.available = c.remaining.length := by
  obtain ⟨k, hk, hle, hrest⟩ := h.exists_offset
  rw [available, hk, hrest, List.length_drop]
  omega

theorem Inside.peek_eq {c : Cursor} (h : c.Inside) (n : Nat) : c.peek n = c.remaining.take n := by
  obtain ⟨k, hk, -, hrest⟩ := h.exists_offset
  rw [peek, hk, hrest, ← Int.natCast_add, Text.slice_natCast, Nat.add_sub_cancel_left]

theorem Inside.current?_eq {c : Cursor} (h : c.Inside) : c.current? = c.remaining.head? := by
  obtain ⟨k, hk, -, hrest⟩ := h.exists_offset
  rw [current?, hk, hrest, Text.charAt?_natCast, List.head?_drop]

theorem Inside.atEnd_iff {c : Cursor} (h : c.Inside) : c.atEnd = true ↔ c.remaining = [] := by
  obtain ⟨k, hk, -, hrest⟩ := h.exists_offset
  rw [atEnd, hk, hrest, decide_eq_true_eq, List.drop_eq_nil_iff]
  omega

theorem Inside.move {c : Cursor} (h : c.Inside) {n : Nat} (hn : n ≤ c.remaining.length) :
    (c.move n).Inside ∧ (c.move n).remaining = c.remaining.drop n := by
  obtain ⟨k, hk, hle, hrest⟩ := h.exists_offset
  rw [hrest, List.length_drop] at hn
  have hoffset : (c.move n).location.offset = ((k + n : Nat) : Int) := by
    rw [move_offset, hk, Int.natCast_add]
  refine ⟨⟨by omega, by rw [hoffset, move_source]; omega⟩, ?_⟩
  rw [remaining, hoffset, Text.index_natCast, move_source, hrest, List.drop_drop]

theorem Inside.advance_eq {c : Cursor} (h : c.Inside) {n : Nat} (hn : n ≤ c.remaining.length) :
    c.advance n = .ok (c.move n) := by
  rw [advance, if_neg (by rw [h.available_eq]; omega)]

theorem skipAtMost_spec (bound : Nat) {c : Cursor} (h : c.Inside)
    (hb : c.remaining.length ≤ bound) :
    (skipAtMost bound c).Inside ∧ (skipAtMost bound c).source = c.source ∧
      (skipAtMost bound c).remaining = c.remaining.behindBlanks := by
  induction bound generalizing c with
  | zero =>
      have hnil : c.remaining = [] := List.eq_nil_of_length_eq_zero (Nat.le_zero.1 hb)
      exact ⟨h, rfl, by rw [skipAtMost, hnil]; rfl⟩
  | succ bound ih =>
      unfold skipAtMost
      rw [h.current?_eq]
      cases hrest : c.remaining with
      | nil => exact ⟨h, rfl, hrest⟩
      | cons here rest =>
          by_cases hblank : isBlank here = true
          · have hmove := h.move (n := 1) (by simp [hrest])
            rw [hrest, List.drop_one, List.tail_cons] at hmove
            obtain ⟨hi, hs, hr⟩ := ih hmove.1 (by rw [hmove.2]; simpa [hrest] using hb)
            simp only [List.head?_cons, hblank, if_true]
            refine ⟨hi, hs, hr.trans ?_⟩
            rw [hmove.2, Text.behindBlanks, Text.behindBlanks, List.dropWhile_cons_of_pos hblank]
          · simp only [List.head?_cons, hblank]
            refine ⟨h, rfl, hrest.trans ?_⟩
            rw [Text.behindBlanks, List.dropWhile_cons_of_neg hblank]

theorem Inside.skipBlanks {c : Cursor} (h : c.Inside) :
    c.skipBlanks.Inside ∧ c.skipBlanks.source = c.source ∧
      c.skipBlanks.remaining = c.remaining.behindBlanks :=
  skipAtMost_spec _ h (by rw [h.available_eq, Int.toNat_natCast])

theorem inside_start (source : Text) : (start source).Inside :=
  ⟨Int.le_refl 0, Int.natCast_nonneg _⟩

end Cursor

/-! ## 2. Sessions -/

namespace Session

/-- The cursor stands in the text. -/
def Inside (s : Session) : Prop := s.cursor.Inside

/-- What is left of the text. -/
def rest (s : Session) : Text := s.cursor.remaining

/-- The session behind some more characters. -/
def past (s : Session) (n : Nat) : Session := s.moveTo (s.cursor.move n)

/-- The session behind the blanks at the cursor. -/
def pastBlanks (s : Session) : Session := s.moveTo s.cursor.skipBlanks

/-- The label of a node that begins here. -/
def opened (s : Session) (kind : Node.Kind) : Label := Label.plain kind (Span.empty s.location)

/-- A node that ends here. -/
def closed (s : Session) (label : Label) (children : List Node) : Node :=
  .mk ((label.endAlong (Span.empty s.location)).refresh s.source) children

/-- A node that ends where another one does. -/
def closedAlong (s : Session) (label : Label) (children : List Node) (last : Node) : Node :=
  .mk ((label.endAlong last.span).refresh s.source) children

@[simp] theorem reports_past (s : Session) (n : Nat) : (s.past n).reports = s.reports := rfl

@[simp] theorem reports_pastBlanks (s : Session) : s.pastBlanks.reports = s.reports := rfl

@[simp] theorem abandoned_past (s : Session) (n : Nat) : (s.past n).abandoned = s.abandoned := rfl

@[simp] theorem abandoned_pastBlanks (s : Session) : s.pastBlanks.abandoned = s.abandoned := rfl

@[simp] theorem abandoned_note (s : Session) (problem : Problem) :
    (s.note problem).abandoned = s.abandoned := rfl

@[simp] theorem rest_giveUp (s : Session) : s.giveUp.rest = s.rest := rfl

@[simp] theorem rest_note (s : Session) (problem : Problem) : (s.note problem).rest = s.rest := rfl

/-- What holds of the reports so far and of the one that is added holds of all of them. -/
theorem forall_mem_note {s : Session} {problem : Problem} {P : Report → Prop}
    (h : ∀ r ∈ s.reports, P r) (hnew : P ⟨problem, s.location⟩) :
    ∀ r ∈ (s.note problem).reports, P r :=
  List.forall_mem_append.2 ⟨h, List.forall_mem_singleton.2 hnew⟩

theorem rest_past {s : Session} (h : s.Inside) {n : Nat} (hn : n ≤ s.rest.length) :
    (s.past n).rest = s.rest.drop n :=
  (Cursor.Inside.move h hn).2

theorem rest_pastBlanks {s : Session} (h : s.Inside) : s.pastBlanks.rest = s.rest.behindBlanks :=
  (Cursor.Inside.skipBlanks h).2.2

/-- As many characters are available as are left. -/
theorem Inside.available_eq {s : Session} (h : s.Inside) :
    s.cursor.available.toNat = s.rest.length := by
  rw [Cursor.Inside.available_eq h]
  rfl

/-- Behind a token stands what follows it. -/
theorem rest_past_append {s : Session} (h : s.Inside) {x r : Text} (hr : s.rest = x ++ r) :
    (s.past x.length).rest = r := by
  rw [rest_past h (by simp [hr]), hr, List.drop_left]

/-! ## 3. Stretches of reading -/

/-- What a stretch of reading keeps. -/
structure Onward (s s' : Session) : Prop where
  source : s'.source = s.source
  inside : s'.Inside
  rest : s'.rest <:+ s.rest
  reports : s.reports <+: s'.reports

theorem Onward.trans {s₁ s₂ s₃ : Session} (h : Onward s₁ s₂) (h' : Onward s₂ s₃) :
    Onward s₁ s₃ :=
  ⟨h'.source.trans h.source, h'.inside, h'.rest.trans h.rest, h.reports.trans h'.reports⟩

theorem onward_refl {s : Session} (h : s.Inside) : Onward s s :=
  ⟨rfl, h, List.suffix_rfl, List.prefix_rfl⟩

theorem onward_past {s : Session} (h : s.Inside) {n : Nat} (hn : n ≤ s.rest.length) :
    Onward s (s.past n) :=
  ⟨rfl, (Cursor.Inside.move h hn).1, rest_past h hn ▸ List.drop_suffix n s.rest,
    List.prefix_rfl⟩

theorem onward_pastBlanks {s : Session} (h : s.Inside) : Onward s s.pastBlanks :=
  ⟨(Cursor.Inside.skipBlanks h).2.1, (Cursor.Inside.skipBlanks h).1,
    rest_pastBlanks h ▸ List.dropWhile_suffix _, List.prefix_rfl⟩

theorem onward_note {s : Session} (h : s.Inside) (problem : Problem) :
    Onward s (s.note problem) :=
  ⟨rfl, h, List.suffix_rfl, List.prefix_append _ _⟩

theorem onward_begin {s : Session} (h : s.Inside) : Onward s s.begin :=
  ⟨rfl, h, List.suffix_rfl, List.prefix_rfl⟩

theorem onward_enter {s : Session} (h : s.Inside) : Onward s s.enter :=
  ⟨rfl, h, List.suffix_rfl, List.prefix_rfl⟩

theorem onward_leave {s : Session} (h : s.Inside) : Onward s s.leave :=
  ⟨rfl, h, List.suffix_rfl, List.prefix_rfl⟩

theorem onward_giveUp {s : Session} (h : s.Inside) : Onward s s.giveUp :=
  ⟨rfl, h, List.suffix_rfl, List.prefix_rfl⟩

theorem onward_past_one {s : Session} (h : s.Inside) (hrest : s.rest ≠ []) :
    Onward s (s.past 1) :=
  onward_past h (List.length_pos_iff.2 hrest)

theorem onward_past_prefix {s : Session} (h : s.Inside) {x : Text} (hx : x <+: s.rest) :
    Onward s (s.past x.length) :=
  onward_past h hx.length_le

/-- The session at the first character of an expression that has been begun. -/
def entered (s : Session) : Session := s.begin.enter.pastBlanks

theorem onward_entered {s : Session} (h : s.Inside) : Onward s s.entered :=
  ((onward_begin h).trans (onward_enter h)).trans (onward_pastBlanks h)

theorem rest_entered {s : Session} (h : s.Inside) : s.entered.rest = s.rest.behindBlanks :=
  rest_pastBlanks (s := s.begin.enter) h

namespace Onward

variable {s s₁ : Session} (h : Onward s s₁)

include h

theorem pastBlanks : Onward s s₁.pastBlanks := h.trans (onward_pastBlanks h.inside)

theorem note (problem : Problem) : Onward s (s₁.note problem) :=
  h.trans (onward_note h.inside problem)

theorem past_one (hrest : s₁.rest ≠ []) : Onward s (s₁.past 1) :=
  h.trans (onward_past_one h.inside hrest)

theorem length_rest_le : s₁.rest.length ≤ s.rest.length := h.rest.length_le

/-- Passing a character leaves less of the text. -/
theorem length_rest_past_lt (hrest : s₁.rest ≠ []) : (s₁.past 1).rest.length < s.rest.length := by
  have hpos := List.length_pos_iff.2 hrest
  have hle := h.length_rest_le
  rw [rest_past h.inside hpos, List.length_drop]
  omega

end Onward

theorem rest_past_one {s : Session} (h : s.Inside) {c : Char} {after : Text}
    (hrest : s.rest = c :: after) : (s.past 1).rest = after :=
  rest_past_append h (x := [c]) hrest

theorem inside_start (source : Text) : (start source).Inside := Cursor.inside_start source

end Session

/-! ## 4. Steps inside a text -/

namespace Rule

variable {s : Session}

theorem runOn_pass_of_le (h : s.Inside) {n : Nat} (hn : n ≤ s.rest.length) :
    (pass n).runOn s = (.ok (), s.past n) := by
  rw [runOn_pass, Cursor.Inside.advance_eq h hn]
  rfl

@[simp] theorem runOn_map {α β : Type} (f : α → β) (rule : Rule α) :
    (f <$> rule).runOn s = ((rule.runOn s).1.map f, (rule.runOn s).2) := by
  rw [← bind_pure_comp, runOn_bind]
  rcases rule.runOn s with ⟨fault | result, s'⟩ <;> rfl

@[simp] theorem runOn_skipBlanks : skipBlanks.runOn s = (.ok (), s.pastBlanks) := rfl

@[simp] theorem runOn_report (problem : Problem) :
    (report problem).runOn s = (.ok (), s.note problem) := rfl

theorem runOn_peek (h : s.Inside) : peek.runOn s = (.ok (s.rest.take 1), s) := by
  show (Except.ok (s.cursor.peek (1 : Nat)), s) = _
  rw [Cursor.Inside.peek_eq h]
  rfl

theorem runOn_atEnd (h : s.Inside) : atEnd.runOn s = (.ok (decide (s.rest = [])), s) := by
  have hdecide : s.cursor.atEnd = decide (s.rest = []) := by
    rw [Bool.eq_iff_iff, decide_eq_true_eq]
    exact Cursor.Inside.atEnd_iff h
  show (Except.ok s.cursor.atEnd, s) = _
  rw [hdecide]

@[simp] theorem runOn_openNode (kind : Node.Kind) :
    (openNode kind).runOn s = (.ok (s.opened kind), s) := rfl

@[simp] theorem runOn_close (label : Label) (children : List Node) :
    (close label children).runOn s = (.ok (s.closed label children), s) := rfl

@[simp] theorem runOn_closeAlong (label : Label) (children : List Node) (last : Node) :
    (closeAlong label children last).runOn s = (.ok (s.closedAlong label children last), s) := rfl

end Rule

end Reckoner
