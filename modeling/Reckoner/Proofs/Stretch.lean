import Mathlib.Logic.Relation
import Reckoner.Proofs.Reading

/-!
# Stretches of reading

Whatever the rules of the grammar do to a session is made of a few kinds of steps, so what each step
keeps is kept by the reading of any part of a text.

* `Session.Step` -- the steps; `Session.Stretch` -- any number of them, one after the other;
* `Reads.stretch` -- an expression is read in a stretch, and so is every part of it;
* `Stretch.told` -- the reports that a stretch adds: which problems they are about, and that they
  lie between its two ends;
* `Stretch.untroubled` -- as long as a text is not given up no report says so;
* `Stretch.spent` -- once it is given up nothing of it is left.
-/

namespace Reckoner

/-- The problems that can be found inside an expression. -/
def Problem.withinExpression : List Problem :=
  [.invalidExpression, .invalidInList, .nestedTooDeeply]

/-! ## 1. Steps and stretches -/

namespace Session

/-- What a rule of the grammar does to a session at a time. -/
inductive Step : Session → Session → Prop where
  | past {s : Session} {n : Nat} (hn : n ≤ s.rest.length) : Step s (s.past n)
  | pastBlanks (s : Session) : Step s s.pastBlanks
  | invalidExpression (s : Session) : Step s (s.note .invalidExpression)
  /-- The end of a text that was given up is not reported. -/
  | invalidInList {s : Session} (hend : s.rest = [] → s.abandoned = false) :
      Step s (s.note .invalidInList)
  | begin (s : Session) : Step s s.begin
  | enter (s : Session) : Step s s.enter
  | leave (s : Session) : Step s s.leave
  | abandon (s : Session) : Step s s.abandon

/-- Any number of steps, one after the other. -/
abbrev Stretch : Session → Session → Prop := Relation.ReflTransGen Step

theorem Step.past_one {s : Session} {c : Char} {after : Text} (hrest : s.rest = c :: after) :
    Step s (s.past 1) :=
  .past (by simp [hrest])

theorem Step.past_lexeme {s : Session} {x : Text} (hx : x <+: s.rest) :
    Step s (s.past x.length) :=
  .past hx.length_le

theorem Step.misplaced {s : Session} {c : Char} {after : Text} (hrest : s.rest = c :: after) :
    Step s (s.note .invalidInList) :=
  .invalidInList fun hend => absurd hend (by simp [hrest])

theorem stretch_entered (s : Session) : s.Stretch s.entered :=
  .head (.begin s) (.head (.enter _) (.single (.pastBlanks _)))

end Session

/-! ## 2. Readings are stretches -/

namespace Reading

variable {inner : Reading} {s s' : Session}
  (hinner : ∀ s g s', inner s g s' → s.Stretch s')

include hinner

theorem Items.stretch {nodes : List Node} (h : inner.Items s nodes s') : s.Stretch s' := by
  induction h with
  | givenUp => exact .refl
  | unclosed _ habandoned => exact .single (.invalidInList fun _ => habandoned)
  | comma _ hitem hnext _ ih =>
      have h₁ := (hinner _ _ _ hitem).tail (.pastBlanks _)
      have h₂ := (h₁.tail (.past_one hnext)).tail (.pastBlanks _)
      exact h₂.trans ih
  | closed _ hitem hnext =>
      have h₁ := (hinner _ _ _ hitem).tail (.pastBlanks _)
      exact h₁.tail (.past_one hnext)
  | junk _ hitem hnext _ _ _ ih =>
      have h₁ := (hinner _ _ _ hitem).tail (.pastBlanks _)
      have h₂ := (h₁.tail (.misplaced hnext)).tail (.past_one hnext)
      exact h₂.trans ih
  | ended _ hitem _ _ ih =>
      have h₁ := (hinner _ _ _ hitem).tail (.pastBlanks _)
      exact h₁.trans ih

theorem Paren.stretch {node : Node} (h : inner.Paren s node s') : s.Stretch s' := by
  obtain ⟨hrest, hitems⟩ := h
  have h₁ := (Relation.ReflTransGen.single (Session.Step.past_one hrest)).tail (.pastBlanks _)
  exact h₁.trans (hitems.stretch hinner)

theorem Arguments.stretch {node : Node} (h : inner.Arguments s node s') : s.Stretch s' := by
  cases h with
  | given hparen => exact hparen.stretch hinner
  | missing => exact .single (.invalidExpression _)

theorem Primary.stretch {node : Node} (h : inner.Primary s node s') : s.Stretch s' := by
  cases h with
  | exhausted => exact .single (.invalidExpression _)
  | invalid hrest =>
      have h₁ := Relation.ReflTransGen.single (Session.Step.invalidExpression s)
      exact h₁.tail (.past (List.length_pos_iff.2 hrest))
  | number hmatch => exact .single (.past_lexeme (Numeral.isNumeral_of_lexeme? hmatch).2)
  | list hparen => exact hparen.stretch hinner
  | placeholder => exact .refl
  | prefixed hrest _ hoperand => exact .head (.past_one hrest) (hinner _ _ _ hoperand)
  | call _ hmatch hgiven =>
      have h₁ := Session.Step.past_lexeme (Token.Kind.prefix_of_match? hmatch)
      exact .head h₁ (.head (.pastBlanks _) (hgiven.stretch hinner))

theorem Tail.stretch {first : Node} {g : Grouping Node} (h : inner.Tail s first g s') :
    s.Stretch s' := by
  cases h with
  | stop => exact .refl
  | link hnext hright =>
      exact .head (.past_lexeme (Link.symbol_prefix_of_next? hnext)) (hinner _ _ _ hright)

end Reading

/-- **An expression is read in a stretch.** -/
theorem Reads.stretch {levels : Nat} {s s' : Session} {g : Grouping Node}
    (h : Reads levels s g s') : s.Stretch s' := by
  induction levels generalizing s g s' with
  | zero =>
      obtain ⟨-, rfl⟩ := h
      exact .head (.begin s) (.single (.abandon _))
  | succ levels ih =>
      obtain ⟨first, s₁, s₂, hprimary, htail, rfl⟩ := h
      have hinner : ∀ s g s', Reads levels s g s' → s.Stretch s' := fun _ _ _ => ih
      have h₁ := (Session.stretch_entered s).trans (hprimary.stretch hinner)
      have h₂ := h₁.tail (.pastBlanks _)
      exact (h₂.trans (htail.stretch hinner)).tail (.leave _)

/-! ## 3. What stretches keep -/

namespace Session

variable {s s₁ s' : Session}

theorem Step.onward (h : Step s s') (hs : s.Inside) : s.Onward s' := by
  cases h with
  | past hn => exact onward_past hs hn
  | pastBlanks => exact onward_pastBlanks hs
  | invalidExpression => exact onward_note hs _
  | invalidInList => exact onward_note hs _
  | begin => exact onward_begin hs
  | enter => exact onward_enter hs
  | leave => exact onward_leave hs
  | abandon => exact onward_abandon hs

theorem Stretch.onward (h : s.Stretch s') (hs : s.Inside) : s.Onward s' := by
  induction h with
  | refl => exact onward_refl hs
  | tail _ hstep ih => exact ih.trans (hstep.onward ih.inside)

/-- The offset of the cursor and what is left make up the length of the text. -/
theorem Inside.offset_add_length (hs : s.Inside) :
    s.location.offset + s.rest.length = s.source.length := by
  have h : s.cursor.available = s.rest.length := Cursor.Inside.available_eq hs
  unfold Cursor.available at h
  show s.cursor.location.offset + s.rest.length = s.cursor.source.length
  omega

theorem Onward.offset_le (h : s.Onward s') (hs : s.Inside) :
    s.location.offset ≤ s'.location.offset := by
  have hstart := hs.offset_add_length
  have hstop := Inside.offset_add_length h.inside
  have hrest := h.length_rest_le
  rw [h.source] at hstop
  omega

theorem reports_abandon (s : Session) :
    s.abandon.reports = (if s.abandoned then s else s.note .nestedTooDeeply).reports := rfl

@[simp] theorem abandoned_abandon (s : Session) : s.abandon.abandoned = true := rfl

/-- A report made between two places of a text, about a problem inside an expression. -/
structure Told (s : Session) (r : Report) (s' : Session) : Prop where
  problem : r.problem ∈ Problem.withinExpression
  after : s.location.offset ≤ r.location.offset
  before : r.location.offset ≤ s'.location.offset

theorem told_note (s : Session) {problem : Problem} (h : problem ∈ Problem.withinExpression) :
    ∀ r ∈ (s.note problem).reports, r ∈ s.reports ∨ s.Told r s :=
  forall_mem_note (fun _ => .inl) (.inr ⟨h, Int.le_refl _, Int.le_refl _⟩)

theorem Told.mono {r : Report} {s₂ : Session} (h : s₁.Told r s')
    (hstart : s.location.offset ≤ s₁.location.offset)
    (hstop : s'.location.offset ≤ s₂.location.offset) : s.Told r s₂ :=
  ⟨h.problem, Int.le_trans hstart h.after, Int.le_trans h.before hstop⟩

theorem Step.told (h : Step s s') (hs : s.Inside) :
    ∀ r ∈ s'.reports, r ∈ s.reports ∨ s.Told r s' := by
  have hle := (h.onward hs).offset_le hs
  have hnote : ∀ problem ∈ Problem.withinExpression,
      ∀ r ∈ (s.note problem).reports, r ∈ s.reports ∨ s.Told r s' := fun _ hproblem r hr =>
    (told_note s hproblem r hr).imp_right fun ht => ht.mono (Int.le_refl _) hle
  cases h with
  | past => exact fun _ => .inl
  | pastBlanks => exact fun _ => .inl
  | invalidExpression => exact hnote .invalidExpression (by decide)
  | invalidInList => exact hnote .invalidInList (by decide)
  | begin => exact fun _ => .inl
  | enter => exact fun _ => .inl
  | leave => exact fun _ => .inl
  | abandon =>
      rw [reports_abandon]
      split
      · exact fun _ => .inl
      · exact hnote .nestedTooDeeply (by decide)

/-- **The reports that a stretch adds lie between its two ends**, and each of them is about a
    problem inside an expression. -/
theorem Stretch.told (h : s.Stretch s') (hs : s.Inside) :
    ∀ r ∈ s'.reports, r ∈ s.reports ∨ s.Told r s' := by
  induction h with
  | refl => exact fun _ => .inl
  | @tail s₁ s₂ hstretch hstep ih =>
      have h₁ := Stretch.onward hstretch hs
      have hle := (hstep.onward h₁.inside).offset_le h₁.inside
      intro r hr
      rcases hstep.told h₁.inside r hr with hr | htold
      · exact (ih r hr).imp_right fun ht => ht.mono (Int.le_refl _) hle
      · exact .inr (htold.mono (h₁.offset_le hs) (Int.le_refl _))

/-- The text has not been given up, and no report says so. -/
structure Untroubled (s : Session) : Prop where
  abandoned : s.abandoned = false
  reports : ∀ r ∈ s.reports, r.problem ≠ .nestedTooDeeply

theorem untroubled_start (source : Text) : (start source).Untroubled :=
  ⟨rfl, by simp [start]⟩

theorem Untroubled.moveTo (hs : s.Untroubled) (c : Cursor) : (s.moveTo c).Untroubled :=
  ⟨hs.abandoned, hs.reports⟩

theorem Untroubled.note (hs : s.Untroubled) {problem : Problem}
    (h : problem ≠ .nestedTooDeeply) : (s.note problem).Untroubled :=
  ⟨hs.abandoned, forall_mem_note hs.reports h⟩

/-- A text that has been given up stays so. -/
theorem Step.abandoned (h : Step s s') (hs' : s'.abandoned = false) : s.abandoned = false := by
  cases h with
  | abandon => simp at hs'
  | _ => exact hs'

theorem Stretch.abandoned (h : s.Stretch s') (hs' : s'.abandoned = false) :
    s.abandoned = false := by
  induction h with
  | refl => exact hs'
  | tail _ hstep ih => exact ih (hstep.abandoned hs')

theorem Step.untroubled (h : Step s s') (hs : s.Untroubled) (hs' : s'.abandoned = false) :
    s'.Untroubled := by
  cases h with
  | invalidExpression => exact hs.note (by simp)
  | invalidInList => exact hs.note (by simp)
  | abandon => simp at hs'
  | _ => exact ⟨hs', hs.reports⟩

/-- **As long as a text is not given up no report says so.** -/
theorem Stretch.untroubled (h : s.Stretch s') (hs : s.Untroubled) (hs' : s'.abandoned = false) :
    s'.Untroubled := by
  induction h with
  | refl => exact hs
  | tail _ hstep ih => exact hstep.untroubled (ih (hstep.abandoned hs')) hs'

/-- Of a text that has been given up nothing is left. -/
def Spent (s : Session) : Prop := s.abandoned = true → s.rest = []

theorem Untroubled.spent (hs : s.Untroubled) : s.Spent := by
  intro habandoned
  simp [hs.abandoned] at habandoned

theorem rest_abandon (hs : s.Inside) : s.abandon.rest = [] := by
  have hall : ∀ t : Session, t.Inside → t.rest = s.rest → (t.past s.rest.length).rest = [] := by
    intro t ht hrest
    rw [← hrest, rest_past ht (Nat.le_refl _), List.drop_length]
  unfold abandon
  split
  · exact hall s.giveUp hs rfl
  · exact hall (s.note .nestedTooDeeply).giveUp hs rfl

theorem Step.spent (h : Step s s') (hs : s.Inside) (hspent : s.Spent) : s'.Spent := by
  -- every other step leaves the mark as it is, and of nothing no step leaves more
  have hkept : s'.abandoned = s.abandoned → s'.Spent := fun hmark habandoned =>
    List.suffix_nil.1 (hspent (hmark ▸ habandoned) ▸ (h.onward hs).rest)
  cases h with
  | abandon => exact fun _ => rest_abandon hs
  | _ => exact hkept rfl

theorem Stretch.spent (h : s.Stretch s') (hs : s.Inside) (hspent : s.Spent) : s'.Spent := by
  induction h with
  | refl => exact hspent
  | tail hstretch hstep ih => exact hstep.spent (Stretch.onward hstretch hs).inside ih

/-- A text that was given up has been read to its end, so where something is left it was not. -/
theorem Spent.not_abandoned (h : s.Spent) (hrest : s.rest ≠ []) : s.abandoned = false := by
  cases habandoned : s.abandoned with
  | true => exact absurd (h habandoned) hrest
  | false => rfl

/-- Where no blank stands there are no blanks to pass. -/
theorem pastBlanks_eq_self_of_head (hs : s.Inside)
    (h : ∀ c ∈ s.rest.head?, Cursor.isBlank c = false) : s.pastBlanks = s := by
  unfold pastBlanks Cursor.skipBlanks
  cases s.cursor.available.toNat with
  | zero => rfl
  | succ bound =>
      unfold Cursor.skipAtMost
      rw [Cursor.Inside.current?_eq hs, show s.cursor.remaining = s.rest from rfl]
      cases hhead : s.rest.head? with
      | none => rfl
      | some c =>
          simp only [h c hhead]
          rfl

theorem pastBlanks_eq_self (hs : s.Inside) (hrest : s.rest = []) : s.pastBlanks = s :=
  pastBlanks_eq_self_of_head hs (by simp [hrest])

/-! ## 4. The end of a text -/

theorem finished_of_rest (hs : s.Inside) (hrest : s.rest = []) : s.finished = s := by
  rw [finished, pastBlanks_eq_self hs hrest, if_pos hrest]

theorem Onward.finished (h : s.Onward s₁) : s.Onward s₁.finished := by
  unfold Session.finished
  split
  · exact h.pastBlanks
  · exact h.pastBlanks.note _

theorem reports_finished (s : Session) : s.reports <+: s.finished.reports := by
  unfold finished
  split
  · exact List.prefix_rfl
  · exact List.prefix_append _ _

/-- Behind the whole expression only what is left over may be reported. -/
theorem mem_reports_finished {r : Report} (hr : r ∈ s.finished.reports) :
    r ∈ s.reports ∨ s.pastBlanks.rest ≠ [] ∧ r = ⟨.trailingCharacters, s.pastBlanks.location⟩ := by
  unfold finished at hr
  split at hr
  · exact .inl hr
  · rename_i hrest
    rcases List.mem_append.1 hr with hr | hr
    · exact .inl hr
    · exact .inr ⟨hrest, List.mem_singleton.1 hr⟩

/-- What is left over is reported. -/
theorem rest_of_not_trailing {s : Session}
    (h : ∀ r ∈ s.finished.reports, r.problem ≠ .trailingCharacters) : s.pastBlanks.rest = [] := by
  by_contra hrest
  refine h ⟨.trailingCharacters, s.pastBlanks.location⟩ ?_ rfl
  rw [finished, if_neg hrest]
  exact List.mem_append_right _ (List.mem_singleton.2 rfl)

end Session

end Reckoner
