import Mathlib.Data.Nat.Find
import Reckoner.Proofs.Phrase
import Reckoner.Proofs.Stretch

/-!
# The nesting limit as a cut

A lower nesting limit does not change what is read, it only ends it earlier: up to the place where a
text is given up both readings are the same.

* `Reads.not_abandoned` -- each expression inside another one starts with less of the text left, so
  as many levels as there are characters, and one more, are always enough;
* `Reads.stop_of_abandoned` -- a text that is given up is in the tree to its end;
* `Session.CutShort` -- what a session that was given up has in common with one that went on;
* `Reads.cut` -- reading with fewer levels is the same as reading with more, or is cut short;
* `exists_nesting` -- so every text has a number of levels that it needs; with fewer it is cut
  short, the later the more levels there are.
-/

namespace Reckoner

/-! ## 1. Enough levels -/

namespace Reading

/-- No text with fewer characters than levels is given up. -/
def Suffices (inner : Reading) (levels : Nat) : Prop :=
  ∀ s g s', inner s g s' → s.Inside → s.rest.length < levels → s.abandoned = false →
    s'.abandoned = false

variable {inner : Reading} {levels : Nat} {s s' : Session}
  (honward : ∀ s g s', inner s g s' → s.Inside → s.Onward s') (hinner : inner.Suffices levels)

include honward hinner

theorem Items.not_abandoned {nodes : List Node} (h : inner.Items s nodes s') (hs : s.Inside)
    (hlength : s.rest.length < levels) (habandoned : s.abandoned = false) :
    s'.abandoned = false := by
  induction h with
  | givenUp => exact habandoned
  | unclosed => exact habandoned
  | @comma s s₁ s' _ _ _ _ hitem hnext _ ih =>
      have h₁ := honward _ _ _ hitem hs
      have h₂ := (h₁.pastBlanks.past_one (by simp [hnext])).pastBlanks
      have hnot : s₁.abandoned = false := hinner _ _ _ hitem hs hlength habandoned
      exact ih h₂.inside (Nat.lt_of_le_of_lt h₂.length_rest_le hlength) hnot
  | @closed s s₁ _ _ _ hitem =>
      have hnot : s₁.abandoned = false := hinner _ _ _ hitem hs hlength habandoned
      exact hnot
  | @junk s s₁ s' _ _ _ _ _ hitem hnext _ _ _ ih =>
      have h₁ := honward _ _ _ hitem hs
      have h₂ := (h₁.pastBlanks.note .invalidInList).past_one (by simp [hnext])
      have hnot : s₁.abandoned = false := hinner _ _ _ hitem hs hlength habandoned
      exact ih h₂.inside (Nat.lt_of_le_of_lt h₂.length_rest_le hlength) hnot
  | @ended s s₁ s' _ _ _ hitem _ _ ih =>
      have h₁ := (honward _ _ _ hitem hs).pastBlanks
      have hnot : s₁.abandoned = false := hinner _ _ _ hitem hs hlength habandoned
      exact ih h₁.inside (Nat.lt_of_le_of_lt h₁.length_rest_le hlength) hnot

theorem Paren.not_abandoned {node : Node} (h : inner.Paren s node s') (hs : s.Inside)
    (hlength : s.rest.length ≤ levels) (habandoned : s.abandoned = false) :
    s'.abandoned = false := by
  obtain ⟨hrest, hitems⟩ := h
  have hne : s.rest ≠ [] := by simp [hrest]
  have hless := (Session.onward_refl hs).length_rest_past_lt hne
  have h₁ := Session.onward_pastBlanks (Session.onward_past_one hs hne).inside
  have hle := h₁.length_rest_le
  exact hitems.not_abandoned honward hinner h₁.inside (by omega) habandoned

theorem Arguments.not_abandoned {node : Node} (h : inner.Arguments s node s') (hs : s.Inside)
    (hlength : s.rest.length ≤ levels) (habandoned : s.abandoned = false) :
    s'.abandoned = false := by
  cases h with
  | given hparen => exact hparen.not_abandoned honward hinner hs hlength habandoned
  | missing => exact habandoned

theorem Primary.not_abandoned {node : Node} (h : inner.Primary s node s') (hs : s.Inside)
    (hlength : s.rest.length ≤ levels) (habandoned : s.abandoned = false) :
    s'.abandoned = false := by
  cases h with
  | list hparen => exact hparen.not_abandoned honward hinner hs hlength habandoned
  | prefixed hrest _ hoperand =>
      have hne : s.rest ≠ [] := by simp [hrest]
      have hless := (Session.onward_refl hs).length_rest_past_lt hne
      exact hinner _ _ _ hoperand (Session.onward_past_one hs hne).inside (by omega) habandoned
  | call _ hmatch hgiven =>
      have h₁ := Session.onward_past_prefix hs (Token.Kind.prefix_of_match? hmatch)
      have h₂ := h₁.pastBlanks
      exact hgiven.not_abandoned honward hinner h₂.inside (h₂.length_rest_le.trans hlength)
        habandoned
  | _ => exact habandoned

omit honward in
theorem Tail.not_abandoned {first : Node} {g : Grouping Node} (h : inner.Tail s first g s')
    (hs : s.Inside) (hlength : s.rest.length ≤ levels) (habandoned : s.abandoned = false) :
    s'.abandoned = false := by
  cases h with
  | stop => exact habandoned
  | @link _ _ link _ hnext hright =>
      have hpre := Link.symbol_prefix_of_next? hnext
      have hpos := List.length_pos_iff.2 link.solid.1
      have hle := hpre.length_le
      refine hinner _ _ _ hright (Session.onward_past_prefix hs hpre).inside ?_ habandoned
      rw [Session.rest_past hs hle, List.length_drop]
      omega

end Reading

/-- **With more levels than characters no text is given up.** -/
theorem Reads.suffices (levels : Nat) : (Reads levels).Suffices levels := by
  induction levels with
  | zero => exact fun _ _ _ _ _ hlength => absurd hlength (Nat.not_lt_zero _)
  | succ levels ih =>
      rintro s g s' ⟨first, s₁, s₂, hprimary, htail, rfl⟩ hs hlength habandoned
      have honward : ∀ s g s', Reads levels s g s' → s.Inside → s.Onward s' :=
        fun _ _ _ => Reads.onward
      have h₁ := Session.onward_entered hs
      have h₂ := h₁.trans (hprimary.onward honward h₁.inside)
      have hle₁ := h₁.length_rest_le
      have hle₂ := h₂.pastBlanks.length_rest_le
      have hfirst := hprimary.not_abandoned honward ih h₁.inside (by omega) habandoned
      have hlast : s₂.abandoned = false :=
        htail.not_abandoned ih h₂.pastBlanks.inside (by omega) hfirst
      exact hlast

/-! ## 2. Where a text is given up -/

namespace Reading

/-- What is read ends at the cursor if the text was given up while it was read. -/
def EndsGivenUp (inner : Reading) : Prop :=
  ∀ s g s', inner s g s' → s.Inside → s.abandoned = false → s'.abandoned = true →
    (g.node s'.source).span.stop = s'.location

variable {inner : Reading} {s s' : Session}

theorem Paren.stop {node : Node} (h : inner.Paren s node s') : node.span.stop = s'.location := by
  cases h with
  | list => rfl

theorem Arguments.stop {node : Node} (h : inner.Arguments s node s') :
    node.span.stop = s'.location := by
  cases h with
  | given hparen => exact hparen.stop
  | missing => rfl

/-- Where nothing is left nothing follows an operand. -/
theorem Tail.eq_of_rest_nil {first : Node} {g : Grouping Node}
    (h : inner.Tail s first g s') (hrest : s.rest = []) : g = .operand first ∧ s' = s := by
  cases h with
  | stop => exact ⟨rfl, rfl⟩
  | link hnext =>
      rw [hrest] at hnext
      cases hnext

variable (hinner : inner.EndsGivenUp)

include hinner

theorem Primary.stop_of_abandoned {node : Node} (h : inner.Primary s node s') (hs : s.Inside)
    (habandoned : s.abandoned = false) (habandoned' : s'.abandoned = true) :
    node.span.stop = s'.location := by
  cases h with
  | list hparen => exact hparen.stop
  | prefixed hrest _ hoperand =>
      have h₁ := Session.onward_past_one hs (by simp [hrest])
      exact hinner _ _ _ hoperand h₁.inside habandoned habandoned'
  | call _ _ hgiven => exact hgiven.stop
  | _ => rfl

theorem Tail.stop_of_abandoned {first : Node} {g : Grouping Node} (h : inner.Tail s first g s')
    (hs : s.Inside) (habandoned : s.abandoned = false) (habandoned' : s'.abandoned = true) :
    (g.node s'.source).span.stop = s'.location := by
  cases h with
  | stop => simp [habandoned] at habandoned'
  | link hnext hright =>
      have h₁ := Session.onward_past_prefix hs (Link.symbol_prefix_of_next? hnext)
      rw [Grouping.stop_settle]
      exact hinner _ _ _ hright h₁.inside habandoned habandoned'

end Reading

/-- **A text that is given up is in the tree to its end.** -/
theorem Reads.stop_of_abandoned (levels : Nat) : (Reads levels).EndsGivenUp := by
  induction levels with
  | zero =>
      rintro s g s' ⟨rfl, rfl⟩ - - -
      rfl
  | succ levels ih =>
      rintro s g s' ⟨first, s₁, s₂, hprimary, htail, rfl⟩ hs habandoned habandoned'
      have hinner : ∀ s g s', Reads levels s g s' → s.Stretch s' := fun _ _ _ => Reads.stretch
      have h₁ := (Session.onward_entered hs).inside
      have hstretch := hprimary.stretch hinner
      have h₂ := (hstretch.onward h₁).inside
      cases hfirst : s₁.abandoned with
      | false =>
          exact htail.stop_of_abandoned ih (Session.onward_pastBlanks h₂).inside hfirst habandoned'
      | true =>
          have hspent : s.entered.Spent := fun hgiven =>
            absurd (habandoned.symm.trans hgiven) (by simp)
          have hrest := hstretch.spent h₁ hspent hfirst
          rw [Session.pastBlanks_eq_self h₂ hrest] at htail
          obtain ⟨rfl, rfl⟩ := htail.eq_of_rest_nil hrest
          exact hprimary.stop_of_abandoned ih h₁ habandoned hfirst

/-! ## 3. Cut short -/

namespace Session

/-- The first session was given up where the second one may have gone on. Up to that place both have
    the same reports, and the second one was not given up in front of it. -/
structure CutShort (s' s₂ : Session) : Prop where
  abandoned : s'.abandoned = true
  reports : ∃ earlier here, s'.reports = earlier ++ [⟨.nestedTooDeeply, here⟩] ∧
    earlier <+: s₂.reports ∧ here.offset ≤ s₂.location.offset ∧
      ∀ r ∈ s₂.reports, r.problem = .nestedTooDeeply → here.offset ≤ r.location.offset

variable {s s₁ s₂ s₃ s' : Session}

/-- It does not matter how the second session goes on. -/
theorem CutShort.stretch (h : s'.CutShort s₂) (hs₂ : s₂.Inside) (h' : s₂.Stretch s₃) :
    s'.CutShort s₃ := by
  obtain ⟨habandoned, earlier, here, hreports, hearlier, hhere, hlater⟩ := h
  have honward := Stretch.onward h' hs₂
  refine ⟨habandoned, earlier, here, hreports, hearlier.trans honward.reports,
    Int.le_trans hhere (honward.offset_le hs₂), fun r hr hproblem => ?_⟩
  rcases Stretch.told h' hs₂ r hr with hr | htold
  · exact hlater r hr hproblem
  · exact Int.le_trans hhere htold.after

theorem CutShort.leave (h : s'.CutShort s₂) : s'.leave.CutShort s₂.leave :=
  ⟨h.abandoned, h.reports⟩

/-- What is left over behind the whole expression is reported by the second session alone. -/
theorem CutShort.finished (h : s'.CutShort s₂) (hs₂ : s₂.Inside) : s'.CutShort s₂.finished := by
  have hblanks : s'.CutShort s₂.pastBlanks := h.stretch hs₂ (.single (.pastBlanks s₂))
  obtain ⟨habandoned, earlier, here, hreports, hearlier, hhere, hlater⟩ := hblanks
  unfold Session.finished
  split
  · exact ⟨habandoned, earlier, here, hreports, hearlier, hhere, hlater⟩
  · have hnote := onward_note (onward_pastBlanks hs₂).inside .trailingCharacters
    exact ⟨habandoned, earlier, here, hreports, hearlier.trans hnote.reports, hhere,
      forall_mem_note hlater (by simp)⟩

/-- A session that is given up at once is cut short, however another one goes on. -/
theorem cutShort_abandon (hs : s.Inside) (huntroubled : s.Untroubled) (h : s.Stretch s₂) :
    s.begin.abandon.CutShort s₂ := by
  have honward := Stretch.onward h hs
  refine ⟨rfl, s.reports, s.location, ?_, honward.reports, honward.offset_le hs,
    fun r hr hproblem => ?_⟩
  · rw [reports_abandon, show s.begin.abandoned = false from huntroubled.abandoned]
    rfl
  · rcases Stretch.told h hs r hr with hr | htold
    · exact absurd hproblem (huntroubled.reports r hr)
    · exact htold.after

end Session

/-- A result is also one of the other relation, or it was cut short and the other relation has a
    result that was not cut there. -/
def Session.SameOrCut {α : Type} (more : α → Session → Prop) (a : α) (s' : Session) : Prop :=
  s'.abandoned = false ∧ more a s' ∨ ∃ b s₂, more b s₂ ∧ s'.CutShort s₂

/-- What is built from a result in the same way is the same or cut short as well. -/
theorem Session.SameOrCut.build {α β : Type} {more : α → Session → Prop}
    {more' : β → Session → Prop} {a : α} {s' : Session} (f : α → Session → β)
    (hbuild : ∀ b s₂, more b s₂ → more' (f b s₂) s₂) (h : SameOrCut more a s') :
    SameOrCut more' (f a s') s' := by
  rcases h with ⟨habandoned, hsame⟩ | ⟨b, s₂, hother, hcut⟩
  · exact .inl ⟨habandoned, hbuild a s' hsame⟩
  · exact .inr ⟨f b s₂, s₂, hbuild b s₂ hother, hcut⟩

namespace Reading

open Session (SameOrCut)

variable {inner more : Reading} {rule : Rule Node} {s s' : Session}

/-- Behind an item the items of a list can be read on. -/
theorem exists_items_of_item (hrule : rule.Follows inner)
    (hstretch : ∀ s g s', inner s g s' → s.Stretch s') (hs : s.Inside) (hrest : s.rest ≠ [])
    {g : Grouping Node} {s₁ : Session} (hitem : inner s g s₁) :
    ∃ nodes s', inner.Items s nodes s' ∧ s₁.Stretch s' := by
  have h₁ := (hrule.onward _ _ _ hitem hs).pastBlanks
  have hblanks : s₁.Stretch s₁.pastBlanks := .single (.pastBlanks _)
  cases hnext : s₁.pastBlanks.rest with
  | nil =>
      obtain ⟨nodes, s', hitems⟩ := exists_items hrule h₁.inside
      exact ⟨_, s', .ended hrest hitem hnext hitems, hblanks.trans (hitems.stretch hstretch)⟩
  | cons c after =>
      have hne : s₁.pastBlanks.rest ≠ [] := by simp [hnext]
      by_cases hcomma : c = ','
      · subst hcomma
        have h₂ := (hblanks.tail (.past_one hnext)).tail (.pastBlanks _)
        obtain ⟨nodes, s', hitems⟩ := exists_items hrule (h₁.past_one hne).pastBlanks.inside
        exact ⟨_, s', .comma hrest hitem hnext hitems, h₂.trans (hitems.stretch hstretch)⟩
      by_cases hclose : c = ')'
      · subst hclose
        exact ⟨_, _, .closed hrest hitem hnext, hblanks.tail (.past_one hnext)⟩
      have h₂ := (hblanks.tail (.misplaced hnext)).tail (.past_one hnext)
      obtain ⟨nodes, s', hitems⟩ :=
        exists_items hrule ((h₁.note .invalidInList).past_one hne).inside
      exact ⟨_, s', .junk hrest hitem hnext hcomma hclose hitems,
        h₂.trans (hitems.stretch hstretch)⟩

/-- Reading with `inner` is the same as reading with `more`, or is cut short. -/
def CutTo (inner more : Reading) : Prop :=
  ∀ s g s', inner s g s' → s.Inside → s.Untroubled → SameOrCut (more s) g s'

section Cut

variable (hinner : ∀ s g s', inner s g s' → s.Stretch s')
  (hmore : ∀ s g s', more s g s' → s.Stretch s') (hrule : rule.Follows more)
  (hcut : inner.CutTo more)

include hinner hmore hrule hcut

/-- The first item of a list is the same, or the whole list is cut short in it. -/
theorem item_cut {g : Grouping Node} {s₁ : Session} (hitem : inner s g s₁) (hs : s.Inside)
    (huntroubled : s.Untroubled) (hrest : s.rest ≠ []) :
    more s g s₁ ∧ s₁.Untroubled ∨
      s₁.pastBlanks = s₁ ∧ s₁.rest = [] ∧ s₁.abandoned = true ∧
        ∃ nodes s₂, more.Items s nodes s₂ ∧ s₁.CutShort s₂ := by
  have hstretch := hinner _ _ _ hitem
  rcases hcut _ _ _ hitem hs huntroubled with ⟨habandoned, hsame⟩ | ⟨g₂, t, hother, hshort⟩
  · exact .inl ⟨hsame, hstretch.untroubled huntroubled habandoned⟩
  · have hempty := hstretch.spent hs huntroubled.spent hshort.abandoned
    obtain ⟨nodes, s₂, hitems, hon⟩ := exists_items_of_item hrule hmore hs hrest hother
    have ht := (hrule.onward _ _ _ hother hs).inside
    exact .inr ⟨Session.pastBlanks_eq_self (hstretch.onward hs).inside hempty, hempty,
      hshort.abandoned, nodes, s₂, hitems, hshort.stretch ht hon⟩

theorem Items.cut {nodes : List Node} (h : inner.Items s nodes s') (hs : s.Inside)
    (huntroubled : s.Untroubled) : SameOrCut (more.Items s) nodes s' := by
  induction h with
  | givenUp hrest habandoned => exact .inl ⟨huntroubled.abandoned, .givenUp hrest habandoned⟩
  | unclosed hrest habandoned => exact .inl ⟨habandoned, .unclosed hrest habandoned⟩
  | @comma s s₁ s' g after nodes hrest hitem hnext _ ih =>
      have h₁ := ((hinner _ _ _ hitem).onward hs).pastBlanks
      have h₂ := (h₁.past_one (by simp [hnext])).pastBlanks
      rcases item_cut hinner hmore hrule hcut hitem hs huntroubled hrest with
        ⟨hsame, hs₁⟩ | ⟨hself, hempty, -⟩
      · exact (ih h₂.inside ((hs₁.moveTo _).moveTo _ |>.moveTo _)).build
          (fun nodes _ => g.node s₁.source :: nodes) fun _ _ => .comma hrest hsame hnext
      · simp [hself, hempty] at hnext
  | @closed s s₁ g after hrest hitem hnext =>
      rcases item_cut hinner hmore hrule hcut hitem hs huntroubled hrest with
        ⟨hsame, hs₁⟩ | ⟨hself, hempty, -⟩
      · exact .inl ⟨hs₁.abandoned, .closed hrest hsame hnext⟩
      · simp [hself, hempty] at hnext
  | @junk s s₁ s' g c after nodes hrest hitem hnext hcomma hclose _ ih =>
      have h₁ := (((hinner _ _ _ hitem).onward hs).pastBlanks.note .invalidInList)
      have h₂ := h₁.past_one (by simp [hnext])
      rcases item_cut hinner hmore hrule hcut hitem hs huntroubled hrest with
        ⟨hsame, hs₁⟩ | ⟨hself, hempty, -⟩
      · have hnote : (s₁.pastBlanks.note .invalidInList).Untroubled :=
          (hs₁.moveTo _).note (by simp)
        exact (ih h₂.inside (hnote.moveTo _)).build
          (fun nodes _ => g.node s₁.source :: nodes)
          fun _ _ => .junk hrest hsame hnext hcomma hclose
      · simp [hself, hempty] at hnext
  | @ended s s₁ s' g nodes hrest hitem hnext hitems ih =>
      have h₁ := ((hinner _ _ _ hitem).onward hs).pastBlanks
      rcases item_cut hinner hmore hrule hcut hitem hs huntroubled hrest with
        ⟨hsame, hs₁⟩ | ⟨hself, hempty, hgiven, hlist⟩
      · exact (ih h₁.inside (hs₁.moveTo _)).build
          (fun nodes _ => g.node s₁.source :: nodes) fun _ _ => .ended hrest hsame hnext
      · rw [hself] at hitems
        obtain ⟨-, rfl⟩ := hitems.eq_nil_of_rest_nil hempty
        rw [if_pos hgiven]
        obtain ⟨nodes, s₂, hother, hshort⟩ := hlist
        exact .inr ⟨nodes, s₂, hother, hshort⟩

theorem Paren.cut {node : Node} (h : inner.Paren s node s') (hs : s.Inside)
    (huntroubled : s.Untroubled) : SameOrCut (more.Paren s) node s' := by
  obtain ⟨hrest, hitems⟩ := h
  have h₁ := (Session.onward_past_one hs (by simp [hrest])).pastBlanks
  have hopened := (huntroubled.moveTo (s.cursor.move 1)).moveTo (s.past 1).cursor.skipBlanks
  exact (hitems.cut hinner hmore hrule hcut h₁.inside hopened).build
    (fun children s₂ => s₂.closed (s.opened .paren) children) fun _ _ => .list hrest

theorem Arguments.cut {node : Node} (h : inner.Arguments s node s') (hs : s.Inside)
    (huntroubled : s.Untroubled) : SameOrCut (more.Arguments s) node s' := by
  cases h with
  | given hparen =>
      exact (hparen.cut hinner hmore hrule hcut hs huntroubled).build (fun node _ => node)
        fun _ _ => .given
  | missing hrest => exact .inl ⟨huntroubled.abandoned, .missing hrest⟩

theorem Primary.cut {node : Node} (h : inner.Primary s node s') (hs : s.Inside)
    (huntroubled : s.Untroubled) : SameOrCut (more.Primary s) node s' := by
  cases h with
  | exhausted hrest => exact .inl ⟨huntroubled.abandoned, .exhausted hrest⟩
  | invalid hrest hnone => exact .inl ⟨huntroubled.abandoned, .invalid hrest hnone⟩
  | number hmatch => exact .inl ⟨huntroubled.abandoned, .number hmatch⟩
  | list hparen =>
      exact (hparen.cut hinner hmore hrule hcut hs huntroubled).build (fun node _ => node)
        fun _ _ => .list
  | placeholder hrest => exact .inl ⟨huntroubled.abandoned, .placeholder hrest⟩
  | @prefixed _ sign _ _ hrest hsign hoperand =>
      have h₁ := Session.onward_past_one hs (by simp [hrest])
      exact (hcut _ _ _ hoperand h₁.inside (huntroubled.moveTo _)).build
        (fun g s₂ => s₂.closedAlong
          { s.opened .prefixOp with
            symbol? := some [sign], operator? := some (Token.signName sign) }
          [g.node s₂.source] (g.node s₂.source))
        fun _ _ => Primary.prefixed hrest hsign
  | @call _ kind x _ hkind hmatch hgiven =>
      have h₁ := Session.onward_past_prefix hs (Token.Kind.prefix_of_match? hmatch)
      have hnamed := (huntroubled.moveTo (s.cursor.move x.length)).moveTo
        (s.past x.length).cursor.skipBlanks
      exact (hgiven.cut hinner hmore hrule hcut h₁.pastBlanks.inside hnamed).build
        (fun node s₂ => s₂.closedAlong
          { s.opened (Rule.functionKind ⟨kind, x, s.location⟩) with operator? := some x }
          [node] node)
        fun _ _ => Primary.call hkind hmatch

omit hinner hmore hrule in
theorem Tail.cut {first : Node} {g : Grouping Node} (h : inner.Tail s first g s') (hs : s.Inside)
    (huntroubled : s.Untroubled) : SameOrCut (more.Tail s first) g s' := by
  cases h with
  | stop hnone => exact .inl ⟨huntroubled.abandoned, .stop hnone⟩
  | @link _ _ link _ hnext hright =>
      have h₁ := Session.onward_past_prefix hs (Link.symbol_prefix_of_next? hnext)
      exact (hcut _ _ _ hright h₁.inside (huntroubled.moveTo _)).build
        (fun g _ => Grouping.settle link (.operand first) g) fun _ _ => Tail.link hnext

end Cut

end Reading

/-- **Reading with fewer levels is the same as reading with more**, unless the text is given up; then
    it is cut short. -/
theorem Reads.cut {levels levels' : Nat} (hle : levels ≤ levels') :
    (Reads levels).CutTo (Reads levels') := by
  induction levels generalizing levels' with
  | zero =>
      rintro s g s' ⟨-, rfl⟩ hs huntroubled
      obtain ⟨g₂, s₂, hother⟩ := (expression_follows levels').total s hs
      exact .inr ⟨g₂, s₂, hother, Session.cutShort_abandon hs huntroubled hother.stretch⟩
  | succ levels ih =>
      obtain ⟨levels', rfl⟩ := Nat.exists_eq_succ_of_ne_zero (Nat.ne_zero_of_lt hle)
      rintro s g s' ⟨first, s₁, s₂, hprimary, htail, rfl⟩ hs huntroubled
      have hinner : ∀ s g s', Reads levels s g s' → s.Stretch s' := fun _ _ _ => Reads.stretch
      have hmore : ∀ s g s', Reads levels' s g s' → s.Stretch s' := fun _ _ _ => Reads.stretch
      have hrule := expression_follows levels'
      have hcut := ih (Nat.le_of_succ_le_succ hle)
      have h₁ := (Session.onward_entered hs).inside
      have hentered : s.entered.Untroubled := ⟨huntroubled.abandoned, huntroubled.reports⟩
      have hstretch := hprimary.stretch hinner
      have h₂ := (hstretch.onward h₁).pastBlanks.inside
      rcases hprimary.cut hinner hmore hrule hcut h₁ hentered with
        ⟨hnot, hprimary₂⟩ | ⟨first₂, t₁, hprimary₂, hshort⟩
      · have hs₁ := hstretch.untroubled hentered hnot
        rcases htail.cut hcut h₂ (hs₁.moveTo _) with ⟨hnot₂, htail₂⟩ | ⟨g₂, t₂, htail₂, hshort⟩
        · exact .inl ⟨hnot₂, first, s₁, s₂, hprimary₂, htail₂, rfl⟩
        · exact .inr ⟨g₂, t₂.leave, ⟨first, s₁, t₂, hprimary₂, htail₂, rfl⟩, hshort.leave⟩
      · -- the first reading is at the end of the text, the second one goes on from there
        have hempty := hstretch.spent h₁ hentered.spent hshort.abandoned
        rw [Session.pastBlanks_eq_self (hstretch.onward h₁).inside hempty] at htail
        obtain ⟨-, rfl⟩ := htail.eq_of_rest_nil hempty
        have ht₁ := (hprimary₂.stretch hmore).onward h₁
        obtain ⟨g₂, t₂, htail₂⟩ := Reading.exists_tail hrule ht₁.pastBlanks.inside first₂
        have hon : t₁.Stretch t₂ := .head (.pastBlanks t₁) (htail₂.stretch hmore)
        exact .inr ⟨g₂, t₂.leave, ⟨first₂, t₁, t₂, hprimary₂, htail₂, rfl⟩,
          (hshort.stretch ht₁.inside hon).leave⟩

/-! ## 4. What a text needs -/

section Texts

variable {levels : Nat} {limit : NestingLimit} {source : Text} {g : Grouping Node} {s' : Session}

theorem Reads.untroubled (h : Reads levels (Session.start source) g s')
    (hnot : s'.abandoned = false) : s'.Untroubled :=
  h.stretch.untroubled (Session.untroubled_start source) hnot

/-- With more levels a text that is not given up has the same parse. -/
theorem Reads.parse_eq (h : Reads levels (Session.start source) g s')
    (hnot : s'.abandoned = false) (hle : levels ≤ limit.levels) :
    parse ⟨limit, Dialect.standard⟩ source = .ok ⟨g.node s'.source, s'.finished⟩ := by
  rcases Reads.cut hle _ _ _ h (Session.inside_start source) (Session.untroubled_start source) with
    ⟨-, hsame⟩ | ⟨g₂, s₂, -, hshort⟩
  · exact Reckoner.parse_eq hsame
  · exact absurd (hnot.symm.trans hshort.abandoned) (by simp)

/-- With more levels a text that is given up is cut short of its parse. -/
theorem Reads.cutShort (h : Reads levels (Session.start source) g s')
    (hgiven : s'.abandoned = true) (hle : levels ≤ limit.levels) {p : Parse}
    (hparse : parse ⟨limit, Dialect.standard⟩ source = .ok p) : s'.CutShort p.session := by
  have hs := Session.inside_start source
  rcases Reads.cut hle _ _ _ h hs (Session.untroubled_start source) with
    ⟨hnot, -⟩ | ⟨g₂, s₂, hother, hshort⟩
  · exact absurd (hnot.symm.trans hgiven) (by simp)
  · obtain rfl := Except.ok.inj ((Reckoner.parse_eq hother).symm.trans hparse)
    exact hshort.finished (hother.onward hs).inside

/-- A text that is given up is passed to its end, and its tree ends there. -/
theorem Reads.end_of_abandoned (h : Reads levels (Session.start source) g s')
    (hgiven : s'.abandoned = true) :
    s'.finished = s' ∧ (g.node s'.source).span.stop.offset = source.length := by
  have hs := Session.inside_start source
  have honward := h.onward hs
  have hrest := h.stretch.spent hs (Session.untroubled_start source).spent hgiven
  refine ⟨Session.finished_of_rest honward.inside hrest, ?_⟩
  have hsource : s'.source = source := honward.source
  have hlength := Session.Inside.offset_add_length honward.inside
  rw [hrest, hsource] at hlength
  rw [Reads.stop_of_abandoned levels _ _ _ h hs rfl hgiven]
  simpa using hlength

/-- A text can be read with so many levels. -/
def Text.Needs (source : Text) (levels : Nat) : Prop :=
  ∃ g s', Reads levels (Session.start source) g s' ∧ s'.abandoned = false

theorem Text.needs_length_succ (source : Text) : source.Needs (source.length + 1) := by
  have hs := Session.inside_start source
  obtain ⟨g, s', h⟩ := (expression_follows (source.length + 1)).total _ hs
  have hrest : (Session.start source).rest = source := rfl
  refine ⟨g, s', h, Reads.suffices _ _ _ _ h hs ?_ rfl⟩
  rw [hrest]
  exact Nat.lt_succ_self _

/-- Without any level nothing can be read. -/
theorem Text.Needs.pos (h : source.Needs levels) : 0 < levels := by
  obtain ⟨g, s', hreads, hnot⟩ := h
  cases levels with
  | zero =>
      obtain ⟨-, rfl⟩ := hreads
      cases hnot
  | succ levels => exact Nat.succ_pos levels

end Texts

/-- **The nesting limit only cuts off.** Every text has a number of levels that it needs, at most one
    more than it has characters. With at least as many its parse is always the same, and no report
    says that it is nested too deeply. With fewer that is the last report and the only one of its
    kind, the reports before it are the first ones of the whole parse, the tree ends where the text
    does, and a higher limit does not report it any earlier. -/
theorem exists_nesting (source : Text) :
    ∃ need whole, 0 < need ∧ need ≤ source.length + 1 ∧
      (∀ limit : NestingLimit, need ≤ limit.levels →
        parse ⟨limit, Dialect.standard⟩ source = .ok whole) ∧
      (∀ r ∈ whole.reports, r.problem ≠ .nestedTooDeeply) ∧
      ∀ limit : NestingLimit, limit.levels < need →
        ∃ p earlier here, parse ⟨limit, Dialect.standard⟩ source = .ok p ∧
          p.reports = earlier ++ [⟨.nestedTooDeeply, here⟩] ∧
          (∀ r ∈ earlier, r.problem ≠ .nestedTooDeeply) ∧ earlier <+: whole.reports ∧
          p.root.span.stop.offset = source.length ∧
          ∀ (limit' : NestingLimit) (p' : Parse), limit.levels ≤ limit'.levels →
            parse ⟨limit', Dialect.standard⟩ source = .ok p' →
              ∀ r ∈ p'.reports, r.problem = .nestedTooDeeply →
                here.offset ≤ r.location.offset := by
  classical
  have hexists : ∃ levels, source.Needs levels := ⟨_, source.needs_length_succ⟩
  obtain ⟨g, s', hreads, hnot⟩ := Nat.find_spec hexists
  have hneed : ∀ levels < Nat.find hexists, ¬ source.Needs levels := fun _ => Nat.find_min hexists
  have hpos := (Nat.find_spec hexists).pos
  have hle : Nat.find hexists ≤ source.length + 1 := Nat.find_min' hexists source.needs_length_succ
  generalize Nat.find hexists = need at *
  have hwhole : ∀ limit : NestingLimit, need ≤ limit.levels →
      parse ⟨limit, Dialect.standard⟩ source = .ok ⟨g.node s'.source, s'.finished⟩ :=
    fun limit => hreads.parse_eq hnot
  have hnone : ∀ r ∈ s'.finished.reports, r.problem ≠ .nestedTooDeeply := by
    intro r hr
    rcases Session.mem_reports_finished hr with hr | ⟨-, rfl⟩
    · exact (hreads.untroubled hnot).reports r hr
    · simp
  refine ⟨need, ⟨g.node s'.source, s'.finished⟩, hpos, hle, hwhole, hnone, fun limit hless => ?_⟩
  obtain ⟨g₁, s₁, hreads₁, hparse⟩ := exists_parse limit source
  have hgiven : s₁.abandoned = true := by
    cases hmark : s₁.abandoned with
    | true => rfl
    | false => exact absurd ⟨g₁, s₁, hreads₁, hmark⟩ (hneed _ hless)
  obtain ⟨hfinished, hend⟩ := hreads₁.end_of_abandoned hgiven
  rw [hfinished] at hparse
  obtain ⟨-, earlier, here, hreports, hearlier, -, -⟩ :=
    hreads₁.cutShort hgiven (Nat.le_of_lt hless) (hwhole ⟨need, hpos⟩ (Nat.le_refl need))
  refine ⟨_, earlier, here, hparse, hreports, fun r hr => hnone r (hearlier.subset hr), hearlier,
    hend, fun limit' p' hle' hparse' r hr hproblem => ?_⟩
  obtain ⟨-, earlier', here', hreports', -, -, hlater⟩ := hreads₁.cutShort hgiven hle' hparse'
  have hsame : here = here' := by
    have hlast := (List.append_inj' (hreports.symm.trans hreports') rfl).2
    simpa using hlast
  rw [hsame]
  exact hlater r hr hproblem

/-- A list in front of whose item a single level is used up, while four are enough. -/
theorem exists_nesting_list : ∃ whole p earlier here,
    parse ⟨⟨4, by decide⟩, Dialect.standard⟩ "(1)".toList = .ok whole ∧
      (∀ r ∈ whole.reports, r.problem ≠ .nestedTooDeeply) ∧
        parse ⟨⟨1, by decide⟩, Dialect.standard⟩ "(1)".toList = .ok p ∧
          p.reports = earlier ++ [⟨.nestedTooDeeply, here⟩] ∧ earlier <+: whole.reports ∧
            p.root.span.stop.offset = 3 := by
  obtain ⟨need, whole, -, hle, hsame, hnone, hcut⟩ := exists_nesting "(1)".toList
  have hshort : ((parse ⟨⟨1, by decide⟩, Dialect.standard⟩ "(1)".toList).toOption.map
      (·.reports.any (·.problem = .nestedTooDeeply))) = some true := by decide
  have hless : 1 < need := by
    by_contra hge
    rw [hsame ⟨1, by decide⟩ (Nat.not_lt.1 hge)] at hshort
    simp only [Except.toOption, Option.map_some, Option.some.injEq, List.any_eq_true,
      decide_eq_true_eq] at hshort
    obtain ⟨r, hr, hproblem⟩ := hshort
    exact hnone r hr hproblem
  obtain ⟨p, earlier, here, hparse, hreports, -, hearlier, hend, -⟩ := hcut ⟨1, by decide⟩ hless
  exact ⟨whole, p, earlier, here, hsame ⟨4, by decide⟩ hle, hnone, hparse, hreports, hearlier, hend⟩

end Reckoner
