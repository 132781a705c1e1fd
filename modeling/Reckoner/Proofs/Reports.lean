import Reckoner.Proofs.Phrase
import Reckoner.Proofs.Stretch

/-!
# The order of reports

Reports are made where the cursor stands, so they come in the order of the text. That none of them
is made twice at one place, and that nothing is reported behind the place where a text was given up,
depends on what the rules do next after a report.

* `Report.Before` -- what may stand in front of what in the reports on a text;
* `Session.Orderly`, `Session.Fresh` -- the reports of a session are in order, and no report says
  already that no expression starts at the cursor;
* `Reads.keepsOrder` -- an expression that is begun at a fresh place leaves the reports in order;
* `parse_orderly` -- so the reports of every text are.
-/

namespace Reckoner

/-! ## 1. Reports in order -/

/-- One report may stand somewhere in front of another one on a text of that length. -/
structure Report.Before (length : Int) (a b : Report) : Prop where
  offset_le : a.location.offset ≤ b.location.offset
  /-- Nothing is reported on a text that was given up. -/
  goesOn : a.problem ≠ .nestedTooDeeply
  invalidExpression : a.problem = .invalidExpression → b.problem = .invalidExpression →
    a.location.offset ≠ b.location.offset
  /-- Lists that the text leaves open are all reported at its end. -/
  invalidInList : a.problem = .invalidInList → b.problem = .invalidInList →
    a.location.offset < length → a.location.offset ≠ b.location.offset

namespace Session

/-- The reports are in order, and what comes next cannot spoil that. -/
structure Orderly (s : Session) : Prop where
  ordered : s.reports.Pairwise (Report.Before s.source.length)
  behind : ∀ r ∈ s.reports, r.location.offset ≤ s.location.offset
  /-- A character that was reported in a list has been passed. -/
  passed : ∀ r ∈ s.reports, r.problem = .invalidInList →
    r.location.offset < s.location.offset ∨ s.source.length ≤ r.location.offset
  goesOn : s.abandoned = false → ∀ r ∈ s.reports, r.problem ≠ .nestedTooDeeply

/-- It has not been reported that no expression starts here. -/
def Fresh (s : Session) : Prop :=
  ∀ r ∈ s.reports, r.problem = .invalidExpression → r.location.offset < s.location.offset

variable {s s₁ s' : Session}

theorem orderly_start (source : Text) : (start source).Orderly :=
  ⟨.nil, by simp [start], by simp [start], by simp [start]⟩

theorem fresh_start (source : Text) : (start source).Fresh := by simp [Fresh, start]

/-- Going on without a report keeps the reports in order. -/
theorem Orderly.onward (ho : s.Orderly) (hs : s.Inside) (h : s.Onward s')
    (hreports : s'.reports = s.reports) (habandoned : s'.abandoned = s.abandoned) :
    s'.Orderly := by
  have hle := h.offset_le hs
  refine ⟨?_, ?_, ?_, ?_⟩
  · rw [hreports, h.source]
    exact ho.ordered
  · rw [hreports]
    exact fun r hr => Int.le_trans (ho.behind r hr) hle
  · rw [hreports, h.source]
    exact fun r hr hproblem => (ho.passed r hr hproblem).imp_left fun hlt => by omega
  · rw [hreports, habandoned]
    exact ho.goesOn

theorem Fresh.onward (hfresh : s.Fresh) (hs : s.Inside) (h : s.Onward s')
    (hreports : s'.reports = s.reports) : s'.Fresh := by
  have hle := h.offset_le hs
  intro r hr hproblem
  have hlt := hfresh r (hreports ▸ hr) hproblem
  omega

theorem Fresh.pastBlanks (hfresh : s.Fresh) (hs : s.Inside) : s.pastBlanks.Fresh :=
  hfresh.onward hs (onward_pastBlanks hs) rfl

/-- Behind at least one more character every place is fresh. -/
theorem Orderly.fresh_past (ho : s.Orderly) {n : Nat} (hn : 0 < n) : (s.past n).Fresh := by
  intro r hr _
  have hle := ho.behind r hr
  show r.location.offset < s.location.offset + n
  omega

theorem Orderly.past (ho : s.Orderly) (hs : s.Inside) {n : Nat} (hn : n ≤ s.rest.length) :
    (s.past n).Orderly :=
  ho.onward hs (onward_past hs hn) rfl rfl

theorem Orderly.pastBlanks (ho : s.Orderly) (hs : s.Inside) : s.pastBlanks.Orderly :=
  ho.onward hs (onward_pastBlanks hs) rfl rfl

/-- A report that is added stands behind the others as it should. -/
theorem Orderly.before_note (ho : s.Orderly) (habandoned : s.abandoned = false) {problem : Problem}
    (hfresh : problem = .invalidExpression → s.Fresh) :
    (s.note problem).reports.Pairwise (Report.Before s.source.length) := by
  refine List.pairwise_append.2 ⟨ho.ordered, List.pairwise_singleton _ _, fun r hr new hnew => ?_⟩
  obtain rfl := List.mem_singleton.1 hnew
  refine ⟨ho.behind r hr, ho.goesOn habandoned r hr, fun hold hnew => ?_, fun hold _ hlt => ?_⟩
  · exact Int.ne_of_lt (hfresh hnew r hr hold)
  · rcases ho.passed r hr hold with hpassed | hend
    · exact Int.ne_of_lt hpassed
    · omega

theorem Orderly.behind_note (ho : s.Orderly) (problem : Problem) :
    ∀ r ∈ (s.note problem).reports, r.location.offset ≤ s.location.offset :=
  forall_mem_note ho.behind (Int.le_refl _)

theorem Orderly.goesOn_note (ho : s.Orderly) (habandoned : s.abandoned = false)
    {problem : Problem} (h : problem ≠ .nestedTooDeeply) :
    ∀ r ∈ (s.note problem).reports, r.problem ≠ .nestedTooDeeply :=
  forall_mem_note (ho.goesOn habandoned) h

/-- No expression starts at a fresh place, which is reported. -/
theorem Orderly.invalidExpression (ho : s.Orderly) (habandoned : s.abandoned = false)
    (hfresh : s.Fresh) : (s.note .invalidExpression).Orderly := by
  refine ⟨ho.before_note habandoned fun _ => hfresh, ho.behind_note _, ?_,
    fun _ => ho.goesOn_note habandoned (by simp)⟩
  exact forall_mem_note ho.passed (by simp)

/-- A character in a list is reported and passed. -/
theorem Orderly.junk (ho : s.Orderly) (habandoned : s.abandoned = false) :
    ((s.note .invalidInList).past 1).Orderly ∧ ((s.note .invalidInList).past 1).Fresh := by
  have hbehind : ∀ r ∈ (s.note .invalidInList).reports,
      r.location.offset < s.location.offset + (1 : Nat) := fun r hr => by
    have hle := ho.behind_note .invalidInList r hr
    omega
  refine ⟨⟨ho.before_note habandoned (by simp), fun r hr => Int.le_of_lt (hbehind r hr),
    fun r hr _ => .inl (hbehind r hr), fun _ => ho.goesOn_note habandoned (by simp)⟩, ?_⟩
  exact fun r hr _ => hbehind r hr

/-- A list that the text leaves open is reported at the end of the text. -/
theorem Orderly.unclosed (ho : s.Orderly) (hs : s.Inside) (habandoned : s.abandoned = false)
    (hrest : s.rest = []) : (s.note .invalidInList).Orderly := by
  have hlength := hs.offset_add_length
  rw [hrest, List.length_nil, Int.natCast_zero, Int.add_zero] at hlength
  refine ⟨ho.before_note habandoned (by simp), ho.behind_note _, ?_,
    fun _ => ho.goesOn_note habandoned (by simp)⟩
  exact forall_mem_note ho.passed fun _ => .inr (Int.le_of_eq hlength.symm)

/-- A text is given up, which is reported. -/
theorem Orderly.abandon (ho : s.Orderly) (hs : s.Inside) (habandoned : s.abandoned = false) :
    s.abandon.Orderly := by
  have hreports : s.abandon.reports = (s.note .nestedTooDeeply).reports := by
    rw [reports_abandon, habandoned]
    rfl
  have honward := onward_abandon hs
  have hle := honward.offset_le hs
  refine ⟨?_, ?_, ?_, fun hnot => absurd hnot (by simp)⟩
  · rw [hreports, honward.source]
    exact ho.before_note habandoned (by simp)
  · rw [hreports]
    exact fun r hr => Int.le_trans (ho.behind_note _ r hr) hle
  · rw [hreports, honward.source]
    refine forall_mem_note (fun r hr hproblem => ?_) (by simp)
    exact (ho.passed r hr hproblem).imp_left fun hlt => by omega

end Session

/-! ## 2. Readings -/

namespace Reading

/-- An expression that is begun at a fresh place leaves the reports in order. -/
def KeepsOrder (inner : Reading) : Prop :=
  ∀ s g s', inner s g s' → s.Inside → s.abandoned = false → s.Orderly → s.Fresh → s'.Orderly

variable {inner : Reading} {s s' : Session}
  (hstretch : ∀ s g s', inner s g s' → s.Stretch s') (hinner : inner.KeepsOrder)

include hstretch hinner

/-- Each item begins behind a separator, so at a fresh place, or the list has ended. -/
theorem Items.orderly {nodes : List Node} (h : inner.Items s nodes s') (hs : s.Inside)
    (hspent : s.Spent) (ho : s.Orderly) (hfresh : s.rest ≠ [] → s.Fresh) : s'.Orderly := by
  induction h with
  | givenUp => exact ho
  | unclosed hrest habandoned => exact ho.unclosed hs habandoned hrest
  | @comma s s₁ _ _ _ _ hrest hitem hnext _ ih =>
      have hone : 1 ≤ s₁.pastBlanks.rest.length := by simp [hnext]
      have ho₁ := hinner _ _ _ hitem hs (hspent.not_abandoned hrest) ho (hfresh hrest)
      have h₁ := (hstretch _ _ _ hitem).tail (.pastBlanks _)
      have h₂ := h₁.tail (.past_one hnext)
      have hs₁ := Session.Stretch.onward h₁ hs
      have hs₂ := Session.Stretch.onward h₂ hs
      have ho₂ := ho₁.pastBlanks (Session.Stretch.onward (hstretch _ _ _ hitem) hs).inside
      have ho₃ := ho₂.past hs₁.inside hone
      have h₃ := h₂.tail (.pastBlanks _)
      refine ih (Session.Stretch.onward h₃ hs).inside (Session.Stretch.spent h₃ hs hspent)
        (ho₃.pastBlanks hs₂.inside) fun _ => ?_
      exact (ho₂.fresh_past Nat.one_pos).pastBlanks hs₂.inside
  | @closed s s₁ _ _ hrest hitem hnext =>
      have hone : 1 ≤ s₁.pastBlanks.rest.length := by simp [hnext]
      have ho₁ := hinner _ _ _ hitem hs (hspent.not_abandoned hrest) ho (hfresh hrest)
      have hs₁ := Session.Stretch.onward (hstretch _ _ _ hitem) hs
      exact (ho₁.pastBlanks hs₁.inside).past hs₁.pastBlanks.inside hone
  | junk hrest hitem hnext _ _ _ ih =>
      have ho₁ := hinner _ _ _ hitem hs (hspent.not_abandoned hrest) ho (hfresh hrest)
      have h₁ := (hstretch _ _ _ hitem).tail (.pastBlanks _)
      have hnot := (Session.Stretch.spent h₁ hs hspent).not_abandoned (by simp [hnext])
      have ho₂ := ho₁.pastBlanks (Session.Stretch.onward (hstretch _ _ _ hitem) hs).inside
      have h₂ := (h₁.tail (.misplaced hnext)).tail (.past_one hnext)
      have hjunk := ho₂.junk hnot
      exact ih (Session.Stretch.onward h₂ hs).inside (Session.Stretch.spent h₂ hs hspent) hjunk.1
        fun _ => hjunk.2
  | ended hrest hitem hnext _ ih =>
      have ho₁ := hinner _ _ _ hitem hs (hspent.not_abandoned hrest) ho (hfresh hrest)
      have h₁ := (hstretch _ _ _ hitem).tail (.pastBlanks _)
      exact ih (Session.Stretch.onward h₁ hs).inside (Session.Stretch.spent h₁ hs hspent)
        (ho₁.pastBlanks (Session.Stretch.onward (hstretch _ _ _ hitem) hs).inside)
        fun hne => absurd hnext hne

theorem Paren.orderly {node : Node} (h : inner.Paren s node s') (hs : s.Inside)
    (habandoned : s.abandoned = false) (ho : s.Orderly) : s'.Orderly := by
  obtain ⟨hrest, hitems⟩ := h
  have hone : 1 ≤ s.rest.length := by simp [hrest]
  have h₁ := Session.onward_past hs hone
  have hspent : (s.past 1).pastBlanks.Spent := fun hgiven =>
    absurd (habandoned.symm.trans hgiven) (by simp)
  refine hitems.orderly hstretch hinner h₁.pastBlanks.inside hspent
    ((ho.past hs hone).pastBlanks h₁.inside) fun _ => ?_
  exact (ho.fresh_past Nat.one_pos).pastBlanks h₁.inside

theorem Arguments.orderly {node : Node} (h : inner.Arguments s node s') (hs : s.Inside)
    (habandoned : s.abandoned = false) (ho : s.Orderly) (hfresh : s.Fresh) : s'.Orderly := by
  cases h with
  | given hparen => exact hparen.orderly hstretch hinner hs habandoned ho
  | missing => exact ho.invalidExpression habandoned hfresh

theorem Primary.orderly {node : Node} (h : inner.Primary s node s') (hs : s.Inside)
    (habandoned : s.abandoned = false) (ho : s.Orderly) (hfresh : s.Fresh) : s'.Orderly := by
  cases h with
  | exhausted => exact ho.invalidExpression habandoned hfresh
  | invalid hrest =>
      have hnoted := ho.invalidExpression habandoned hfresh
      exact hnoted.past (s := s.note .invalidExpression) hs (List.length_pos_iff.2 hrest)
  | number hmatch => exact ho.past hs (Numeral.isNumeral_of_lexeme? hmatch).2.length_le
  | list hparen => exact hparen.orderly hstretch hinner hs habandoned ho
  | placeholder => exact ho
  | prefixed hrest _ hoperand =>
      have hone : 1 ≤ s.rest.length := by simp [hrest]
      exact hinner _ _ _ hoperand (Session.onward_past hs hone).inside habandoned (ho.past hs hone)
        (ho.fresh_past Nat.one_pos)
  | @call _ kind x _ hkind hmatch hgiven =>
      have hpre := Token.Kind.prefix_of_match? hmatch
      have hpos : 0 < x.length := List.length_pos_iff.2
        (Keyword.Name.solid ⟨x, Token.Kind.mem_keyword_of_match? hkind hmatch⟩).1
      have h₁ := Session.onward_past_prefix hs hpre
      exact hgiven.orderly hstretch hinner h₁.pastBlanks.inside habandoned
        ((ho.past hs hpre.length_le).pastBlanks h₁.inside)
        ((ho.fresh_past hpos).pastBlanks h₁.inside)

omit hstretch in
theorem Tail.orderly {first : Node} {g : Grouping Node} (h : inner.Tail s first g s')
    (hs : s.Inside) (hspent : s.Spent) (ho : s.Orderly) : s'.Orderly := by
  cases h with
  | stop => exact ho
  | @link _ _ link _ hnext hright =>
      have hpre := Link.symbol_prefix_of_next? hnext
      have hpos : 0 < link.symbol.length := List.length_pos_iff.2 link.solid.1
      have hrest : s.rest ≠ [] := List.length_pos_iff.1 (Nat.lt_of_lt_of_le hpos hpre.length_le)
      exact hinner _ _ _ hright (Session.onward_past_prefix hs hpre).inside
        (hspent.not_abandoned hrest) (ho.past hs hpre.length_le) (ho.fresh_past hpos)

end Reading

/-- **An expression that is begun at a fresh place leaves the reports in order.** A report that
    passes no character is followed by a separator, by an operator or by the end of the text, so the
    place is never looked at for an expression again. -/
theorem Reads.keepsOrder (levels : Nat) : (Reads levels).KeepsOrder := by
  induction levels with
  | zero =>
      rintro s g s' ⟨-, rfl⟩ hs habandoned ho -
      exact (ho.onward hs (Session.onward_begin hs) rfl rfl).abandon hs habandoned
  | succ levels ih =>
      rintro s g s' ⟨first, s₁, s₂, hprimary, htail, rfl⟩ hs habandoned ho hfresh
      have hstretch : ∀ s g s', Reads levels s g s' → s.Stretch s' := fun _ _ _ => Reads.stretch
      have h₁ := Session.onward_entered hs
      have hspent : s.entered.Spent := fun hgiven =>
        absurd (habandoned.symm.trans hgiven) (by simp)
      have h₂ := (hprimary.stretch hstretch).tail (.pastBlanks _)
      have hs₁ := Session.Stretch.onward (hprimary.stretch hstretch) h₁.inside
      have ho₁ := hprimary.orderly hstretch ih h₁.inside habandoned
        (ho.onward hs h₁ rfl rfl) (hfresh.onward hs h₁ rfl)
      have ho₂ := htail.orderly ih hs₁.pastBlanks.inside
        (Session.Stretch.spent h₂ h₁.inside hspent) (ho₁.pastBlanks hs₁.inside)
      exact ⟨ho₂.ordered, ho₂.behind, ho₂.passed, ho₂.goesOn⟩

/-! ## 3. Texts -/

/-- What is left over behind the whole expression is reported last. -/
theorem Session.Orderly.finished {s : Session} (ho : s.Orderly) (hs : s.Inside)
    (hspent : s.Spent) :
    s.finished.reports.Pairwise (Report.Before s.source.length) := by
  have honward := onward_pastBlanks hs
  have hblanks : s.pastBlanks.Spent := (Step.pastBlanks s).spent hs hspent
  unfold Session.finished
  split
  · exact ho.ordered
  · rename_i hrest
    have ho' := ho.pastBlanks hs
    have hpairs : (s.pastBlanks.note .trailingCharacters).reports.Pairwise
        (Report.Before s.pastBlanks.source.length) :=
      ho'.before_note (hblanks.not_abandoned hrest) (by simp)
    rwa [honward.source] at hpairs

/-- Inside an expression only problems of expressions are reported. -/
theorem Reads.withinExpression {levels : Nat} {source : Text} {s' : Session} {g : Grouping Node}
    (h : Reads levels (Session.start source) g s') :
    ∀ r ∈ s'.reports, r.problem ∈ Problem.withinExpression := by
  intro r hr
  rcases h.stretch.told (Session.inside_start source) r hr with hr | htold
  · cases hr
  · exact htold.problem

/-- Behind a report that says that characters are left over nothing is reported. -/
theorem Session.not_trailing_of_mem_dropLast {s : Session}
    (h : ∀ r ∈ s.reports, r.problem ∈ Problem.withinExpression) :
    ∀ r ∈ s.finished.reports.dropLast, r.problem ≠ .trailingCharacters := by
  have hnone : ∀ r ∈ s.reports, r.problem ≠ .trailingCharacters := fun r hr hproblem =>
    absurd (hproblem ▸ h r hr) (by decide)
  unfold Session.finished
  split
  · exact fun r hr => hnone r (List.dropLast_subset _ hr)
  · intro r hr
    rw [note, List.dropLast_concat] at hr
    exact hnone r hr

/-- Behind a report that a text was given up nothing is reported. -/
theorem Report.not_nested_of_mem_dropLast {length : Int} {reports : List Report}
    (h : reports.Pairwise (Report.Before length)) :
    ∀ r ∈ reports.dropLast, r.problem ≠ .nestedTooDeeply := by
  intro r hr
  obtain ⟨others, last, rfl⟩ :=
    List.eq_nil_or_concat reports |>.resolve_left fun hnil => by simp [hnil] at hr
  rw [List.concat_eq_append] at hr h
  rw [List.dropLast_concat] at hr
  exact ((List.pairwise_append.1 h).2.2 r hr last (List.mem_singleton.2 rfl)).goesOn

/-- What is said by no report but the last is said once at most. -/
theorem Report.countP_le_one {said : Report → Bool} {reports : List Report}
    (h : ∀ r ∈ reports.dropLast, said r = false) : reports.countP said ≤ 1 := by
  rcases List.eq_nil_or_concat reports with rfl | ⟨others, last, rfl⟩
  · exact Nat.zero_le 1
  · rw [List.concat_eq_append, List.dropLast_concat] at h
    rw [List.concat_eq_append, List.countP_append,
      List.countP_eq_zero.2 fun r hr => by simp [h r hr], Nat.zero_add]
    exact List.countP_le_length

/-- Every report on a text is about one of the known problems. -/
theorem Reads.known {levels : Nat} {source : Text} {s' : Session} {g : Grouping Node}
    (h : Reads levels (Session.start source) g s') :
    ∀ r ∈ s'.finished.reports, r.problem ∈ Problem.known := by
  have hall : ∀ problem ∈ Problem.withinExpression, problem ∈ Problem.known := by decide
  intro r hr
  rcases Session.mem_reports_finished hr with hr | ⟨-, rfl⟩
  · exact hall _ (h.withinExpression r hr)
  · simp [Problem.known]

/-- **The reports on a text are in order and none of them is made twice.** Their offsets never
    decrease, and each has the code that belongs to its message. That characters are left over or
    that the text is nested too deeply is said once at most, and then last. No two reports at one
    place say that no expression starts there, nor, in front of the end of the text, that a
    character does not belong in a list. -/
theorem parse_orderly (limit : NestingLimit) (source : Text) :
    ∃ p, parse ⟨limit, Dialect.standard⟩ source = .ok p ∧
      (p.reports.Pairwise fun a b => a.location.offset ≤ b.location.offset) ∧
      (∀ r ∈ p.reports, ∃ entry ∈ Problem.catalogue,
        entry.1 ∈ ["P001".toList, "P002".toList, "P003".toList, "P004".toList] ∧
          r.problem.code? = some entry.1 ∧ r.problem.message = entry.2) ∧
      p.reports.countP
        (fun r => r.problem = .trailingCharacters ∨ r.problem = .nestedTooDeeply) ≤ 1 ∧
      (∀ r ∈ p.reports.dropLast,
        r.problem ≠ .trailingCharacters ∧ r.problem ≠ .nestedTooDeeply) ∧
      (p.reports.Pairwise fun a b => a.problem = .invalidExpression →
        b.problem = .invalidExpression → a.location.offset ≠ b.location.offset) ∧
      (p.reports.Pairwise fun a b => a.problem = .invalidInList → b.problem = .invalidInList →
        a.location.offset < (source.length : Int) → a.location.offset ≠ b.location.offset) := by
  obtain ⟨g, s', hreads, hparse⟩ := exists_parse limit source
  have hs := Session.inside_start source
  have honward := hreads.onward hs
  have ho := Reads.keepsOrder _ _ _ _ hreads hs rfl (Session.orderly_start source)
    (Session.fresh_start source)
  have hspent := hreads.stretch.spent hs (Session.untroubled_start source).spent
  have hsource : s'.source = source := honward.source
  have hpairs := ho.finished honward.inside hspent
  rw [hsource] at hpairs
  have hlast : ∀ r ∈ s'.finished.reports.dropLast,
      r.problem ≠ .trailingCharacters ∧ r.problem ≠ .nestedTooDeeply := fun r hr =>
    ⟨Session.not_trailing_of_mem_dropLast hreads.withinExpression r hr,
      Report.not_nested_of_mem_dropLast hpairs r hr⟩
  have hcodes : ∀ problem ∈ Problem.known, ∃ entry ∈ Problem.catalogue,
      entry.1 ∈ ["P001".toList, "P002".toList, "P003".toList, "P004".toList] ∧
        problem.code? = some entry.1 ∧ problem.message = entry.2 := by decide
  exact ⟨_, hparse, hpairs.imp fun h => h.offset_le,
    fun r hr => hcodes r.problem (hreads.known r hr),
    Report.countP_le_one fun r hr => by simp [hlast r hr], hlast,
    hpairs.imp fun h => h.invalidExpression, hpairs.imp fun h => h.invalidInList⟩

end Reckoner
