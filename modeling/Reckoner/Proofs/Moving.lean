import Reckoner.Proofs.LongestMatch
import Reckoner.Proofs.Position

/-!
# Moves of a cursor

A cursor counts lines and columns character by character and its offset in one go, and it passes
blanks in single moves. However a way through the text is divided into moves, it ends at the same
place, and a move that would leave the text is not made at all.

* `move_move`, `skipAtMost_eq_move` -- one move behind another, and single moves over blanks, are
  one move;
* `advance_of_lt` -- where fewer characters are left there is a fault;
* `Cursor.Operation`, `Cursor.carryOut` -- the moves of a cursor, one after the other;
* `Cursor.Lawful` -- how a cursor goes on from where it stands; `Inside.lawful` -- from anywhere in
  its text;
* `lawful_carryOut` -- so from wherever any number of moves have taken it.
-/

namespace Reckoner

/-- Lines and columns are counted without a look at the offset. -/
theorem Location.foldl_pass_offset (passed : Text) (here : Location) (offset : Int) :
    passed.foldl Location.pass { here with offset } =
      { passed.foldl Location.pass here with offset } := by
  induction passed generalizing here with
  | nil => rfl
  | cons c passed ih =>
      have hpass : Location.pass { here with offset } c = { here.pass c with offset } := by
        unfold Location.pass
        split <;> rfl
      rw [List.foldl_cons, List.foldl_cons, hpass, ih]

namespace Cursor

variable {c : Cursor}

/-! ## 1. Single moves -/

/-- A move counts through the characters it passes. -/
theorem move_eq (hc : c.Inside) (n : Nat) :
    c.move n =
      { c with
        location :=
          { (c.remaining.take n).foldl Location.pass c.location with
            offset := c.location.offset + n } } := by
  rw [move, hc.peek_eq]

theorem move_zero (hc : c.Inside) : c.move (0 : Nat) = c := by
  rw [move_eq hc, List.take_zero, List.foldl_nil, Int.natCast_zero, Int.add_zero]

/-- **One move behind another is one move**, wherever the way is divided. -/
theorem move_move (hc : c.Inside) {a b : Nat} (h : a + b ≤ c.remaining.length) :
    (c.move a).move b = c.move ((a + b : Nat) : Int) := by
  obtain ⟨hinside, hrest⟩ := hc.move (n := a) (by omega)
  have hoffset : c.location.offset + a + b = c.location.offset + ((a + b : Nat) : Int) := by omega
  have hcount := Location.foldl_pass_offset ((c.remaining.drop a).take b)
    ((c.remaining.take a).foldl Location.pass c.location) (c.location.offset + a)
  rw [move_eq hinside, hrest, move_eq hc, move_eq hc, List.take_add, List.foldl_append, hcount,
    ← hoffset]

theorem advance_of_lt (hc : c.Inside) {n : Nat} (hn : c.remaining.length < n) :
    c.advance n = .error (.overrun n c.remaining.length c.location) := by
  rw [advance, hc.available_eq, if_pos (by omega)]

/-- A move ends in a fault exactly if it is longer than what is left. -/
theorem advance_eq_error_iff (hc : c.Inside) {n : Nat} {fault : Fault} :
    c.advance n = .error fault ↔
      c.remaining.length < n ∧ fault = .overrun n c.remaining.length c.location := by
  by_cases hn : c.remaining.length < n
  · simp [advance_of_lt hc hn, hn, eq_comm]
  · simp [hc.advance_eq (Nat.le_of_not_lt hn), hn]

theorem advance_eq_ok_iff (hc : c.Inside) {n : Nat} {c' : Cursor} :
    c.advance n = .ok c' ↔ n ≤ c.remaining.length ∧ c' = c.move n := by
  by_cases hn : n ≤ c.remaining.length
  · simp [hc.advance_eq hn, hn, eq_comm]
  · simp [advance_of_lt hc (Nat.lt_of_not_le hn), hn]

/-- **Two moves can be made exactly if the one over both ways can**, and they end where it ends. -/
theorem advance_advance_iff (hc : c.Inside) {a b : Nat} {c' : Cursor} :
    (c.advance a >>= fun between => between.advance b) = .ok c' ↔
      c.advance ((a + b : Nat) : Int) = .ok c' := by
  by_cases ha : a ≤ c.remaining.length
  · obtain ⟨hinside, hrest⟩ := hc.move ha
    have hfirst : (c.advance a >>= fun between => between.advance b) = (c.move a).advance b := by
      rw [hc.advance_eq ha]
      rfl
    rw [hfirst, advance_eq_ok_iff hinside, advance_eq_ok_iff hc, hrest, List.length_drop]
    constructor
    · rintro ⟨hb, rfl⟩
      have hboth : a + b ≤ c.remaining.length := by omega
      exact ⟨hboth, move_move hc hboth⟩
    · rintro ⟨hboth, rfl⟩
      exact ⟨by omega, (move_move hc hboth).symm⟩
  · have hfault : (c.advance a >>= fun between => between.advance b) =
        .error (.overrun a c.remaining.length c.location) := by
      rw [advance_of_lt hc (Nat.lt_of_not_le ha)]
      rfl
    rw [hfault, advance_eq_ok_iff hc]
    simp only [reduceCtorEq, false_iff]
    omega

/-! ## 2. Blanks -/

/-- The blanks at a cursor. -/
def blanksAhead (c : Cursor) : Text := c.remaining.takeWhile isBlank

theorem length_blanksAhead_le (c : Cursor) : c.blanksAhead.length ≤ c.remaining.length :=
  (List.takeWhile_prefix isBlank).length_le

/-- Single moves over blanks are one move over all of them. -/
theorem skipAtMost_eq_move (bound : Nat) (hc : c.Inside) (hbound : c.remaining.length ≤ bound) :
    skipAtMost bound c = c.move c.blanksAhead.length := by
  induction bound generalizing c with
  | zero =>
      have hnil : c.remaining = [] := List.eq_nil_of_length_eq_zero (Nat.le_zero.1 hbound)
      rw [skipAtMost, blanksAhead, hnil, List.takeWhile_nil, List.length_nil, move_zero hc]
  | succ bound ih =>
      unfold skipAtMost
      rw [hc.current?_eq]
      cases hrest : c.remaining with
      | nil =>
          rw [blanksAhead, hrest, List.takeWhile_nil, List.length_nil, move_zero hc]
          rfl
      | cons here rest =>
          by_cases hblank : isBlank here = true
          · obtain ⟨hinside, hbehind⟩ := hc.move (n := 1) (by simp [hrest])
            rw [hrest, List.drop_one, List.tail_cons] at hbehind
            have hahead : c.blanksAhead.length = 1 + (c.move (1 : Nat)).blanksAhead.length := by
              rw [blanksAhead, blanksAhead, hrest, hbehind, List.takeWhile_cons_of_pos hblank,
                List.length_cons, Nat.add_comm]
            have hleft : (c.move (1 : Nat)).remaining.length ≤ bound := by
              rw [hrest, List.length_cons] at hbound
              rw [hbehind]
              omega
            have hle := c.length_blanksAhead_le
            rw [hahead] at hle ⊢
            simp only [List.head?_cons, hblank, if_true]
            rw [← move_move hc hle]
            exact ih hinside hleft
          · rw [blanksAhead, hrest, List.takeWhile_cons_of_neg hblank, List.length_nil,
              move_zero hc]
            simp [hblank]

theorem skipBlanks_eq_move (hc : c.Inside) : c.skipBlanks = c.move c.blanksAhead.length :=
  skipAtMost_eq_move _ hc (by rw [hc.available_eq, Int.toNat_natCast])

/-- What is left behind the blanks does not start with one. -/
theorem not_blank_current? (hc : c.Inside) :
    ∀ here ∈ c.skipBlanks.current?, isBlank here = false := by
  obtain ⟨hinside, -, hrest⟩ := hc.skipBlanks
  rw [hinside.current?_eq, hrest]
  exact Text.head?_behindBlanks _

theorem skipBlanks_skipBlanks (hc : c.Inside) : c.skipBlanks.skipBlanks = c.skipBlanks := by
  obtain ⟨hinside, -, hrest⟩ := hc.skipBlanks
  have hahead : c.skipBlanks.blanksAhead = [] := by
    have hnot := not_blank_current? hc
    rw [hinside.current?_eq] at hnot
    unfold blanksAhead
    cases hleft : c.skipBlanks.remaining with
    | nil => rfl
    | cons here rest =>
        rw [hleft] at hnot
        exact List.takeWhile_cons_of_neg (by simp [hnot here rfl])
  rw [skipBlanks_eq_move hinside, hahead, List.length_nil, move_zero hinside]

/-! ## 3. How a cursor goes on -/

/-- The text of a cursor, and how it goes on from where it stands. -/
structure Lawful (source : Text) (c : Cursor) : Prop where
  text : c.source = source
  inside : c.Inside
  /-- What has been passed and what is left make up the text. -/
  whole : source.slice 0 c.location.offset ++ c.remaining = source
  /-- Two moves are the one over both ways: one can be made if the other can, and they end alike. -/
  composes : ∀ (a b : Nat) (c' : Cursor),
    (c.advance a >>= fun between => between.advance b) = .ok c' ↔
      c.advance ((a + b : Nat) : Int) = .ok c'
  overrun : ∀ (n : Nat) (fault : Fault), c.advance n = .error fault ↔
    c.remaining.length < n ∧ fault = .overrun n c.remaining.length c.location
  code : ∀ (n : Nat) (fault : Fault), c.advance n = .error fault →
    fault.diagnostic?.bind Diagnostic.code? = some "L001".toList
  /-- A session whose cursor cannot go so far is left as it was. -/
  unchanged : ∀ (s : Session) (n : Nat), s.cursor = c → c.remaining.length < n →
    (Rule.pass n).runOn s = (.error (.overrun n c.remaining.length c.location), s)
  /-- Passing blanks is one move over as many of them as stand there. -/
  blanks : ∃ w, c.remaining.Longest Text.Blank (some w) ∧ c.advance w.length = .ok c.skipBlanks
  stops : c.skipBlanks.atEnd = true ∨
    ∃ here, c.skipBlanks.current? = some here ∧ isBlank here = false
  again : c.skipBlanks.skipBlanks = c.skipBlanks

/-- **From anywhere in its text a cursor goes on lawfully.** -/
theorem Inside.lawful (hc : c.Inside) : c.Lawful c.source := by
  obtain ⟨k, hk, hle, hrest⟩ := hc.exists_offset
  obtain ⟨hinside, -, -⟩ := hc.skipBlanks
  refine {
    text := rfl
    inside := hc
    whole := ?_
    composes := fun _ _ _ => advance_advance_iff hc
    overrun := fun _ _ => advance_eq_error_iff hc
    code := fun n fault hfault => ?_
    unchanged := fun s n hs hn => ?_
    blanks := ⟨c.blanksAhead, Text.longest_takeWhile isBlank c.remaining, ?_⟩
    stops := ?_
    again := skipBlanks_skipBlanks hc }
  · rw [hk, hrest]
    show c.source.slice ((0 : Nat) : Int) k ++ c.source.drop k = c.source
    rw [Text.slice_natCast, List.drop_zero, Nat.sub_zero, List.take_append_drop]
  · obtain ⟨-, rfl⟩ := (advance_eq_error_iff hc).1 hfault
    rfl
  · rw [Rule.runOn_pass, hs, advance_of_lt hc hn]
  · rw [hc.advance_eq c.length_blanksAhead_le, skipBlanks_eq_move hc]
  · cases hcurrent : c.skipBlanks.current? with
    | none =>
        rw [hinside.current?_eq, List.head?_eq_none_iff] at hcurrent
        exact .inl (hinside.atEnd_iff.2 hcurrent)
    | some here => exact .inr ⟨here, rfl, not_blank_current? hc here hcurrent⟩

/-! ## 4. Any number of moves -/

/-- What moves a cursor; to look at what is left moves nothing. -/
inductive Operation where
  | advance (count : Nat)
  | skipBlanks
  deriving DecidableEq, Repr

/-- The cursor after an operation: where it was if that ends in a fault. -/
def perform (c : Cursor) : Operation → Cursor
  | .advance count =>
      match c.advance count with
      | .ok c' => c'
      | .error _ => c
  | .skipBlanks => c.skipBlanks

/-- Carries out one operation after the other; a fault ends the operation but not those behind
    it. -/
def carryOut (operations : List Operation) (c : Cursor) : Cursor := operations.foldl perform c

/-- An operation keeps the cursor in its text. -/
theorem inside_perform (hc : c.Inside) (operation : Operation) :
    (c.perform operation).Inside ∧ (c.perform operation).source = c.source := by
  cases operation with
  | advance count =>
      by_cases hcount : count ≤ c.remaining.length
      · simp only [perform, hc.advance_eq hcount]
        exact ⟨(hc.move hcount).1, rfl⟩
      · have hstays : c.perform (.advance count) = c := by
          simp only [perform, advance_of_lt hc (Nat.lt_of_not_le hcount)]
        rw [hstays]
        exact ⟨hc, rfl⟩
  | skipBlanks =>
      obtain ⟨hinside, hsource, -⟩ := hc.skipBlanks
      exact ⟨hinside, hsource⟩

theorem inside_carryOut (operations : List Operation) (hc : c.Inside) :
    (carryOut operations c).Inside ∧ (carryOut operations c).source = c.source := by
  induction operations generalizing c with
  | nil => exact ⟨hc, rfl⟩
  | cons operation operations ih =>
      obtain ⟨hinside, hsource⟩ := inside_perform hc operation
      obtain ⟨hlast, hall⟩ := ih hinside
      exact ⟨hlast, hall.trans hsource⟩

/-- **However a new cursor has been moved through a text, it goes on lawfully.** Two moves come to
    the place of the one over both ways, and can be made exactly if that can. A move that is longer
    than what is left is a fault with its code and leaves everything as it was, and no other move is
    one. Passing blanks is one move over the longest run of blanks there; it stops at the end of the
    text or in front of another character, and once is enough. What has been passed and what is left
    always make up the text. -/
theorem lawful_carryOut (source : Text) (operations : List Operation) :
    (carryOut operations (start source)).Lawful source := by
  obtain ⟨hinside, hsource⟩ := inside_carryOut operations (inside_start source)
  have hlawful := hinside.lawful
  rwa [hsource] at hlawful

end Cursor

end Reckoner
