import Reckoner.Proofs.Faultless
import Reckoner.Proofs.Locations
import Reckoner.Session.Command

/-!
# Calls of a session

Once a text has been read its rules may be called in any order, from wherever the cursor stands and
whatever was reported or given up before. Whatever is called, the session stays one of its text.

* `Report.Heeds` -- a report that minds that the text was given up;
* `Session.Adds` -- the reports that are added between two sessions; `Step.adds`, `Stretch.adds`;
* `Session.Gives` -- a rule gives a node between two sessions;
* `Command.Faults` -- the calls that end in a fault, and the fault;
* `Session.AtRest` -- what holds between two calls;
* `Command.Consistent` -- what a call keeps, `consistent_perform` -- and every call keeps it;
* `session_consistent` -- so does any number of calls after a text has been read.
-/

namespace Reckoner

/-! ## 1. Reports that are added -/

/-- A report in a text that was given up: it does not say so once more, nor that a list is open at
    the end of the text. -/
structure Report.Heeds (source : Text) (r : Report) : Prop where
  nested : r.problem ≠ .nestedTooDeeply
  unclosed : r.problem = .invalidInList → r.location.offset < source.length

namespace Session

/-- Reports are added between two sessions, and each is about a place between the two. The text is
    given up when a report says so, and from then on reports heed it. -/
structure Adds (s : Session) (added : List Report) (s' : Session) : Prop where
  onward : s.Onward s'
  reports : s'.reports = s.reports ++ added
  within : ∀ r ∈ added,
    s.location.offset ≤ r.location.offset ∧ r.location.offset ≤ s'.location.offset
  mark : s'.abandoned = true ↔
    s.abandoned = true ∨ ∃ r ∈ added, r.problem = .nestedTooDeeply
  heeds : s.abandoned = true → ∀ r ∈ added, r.Heeds s.source
  later : added.Pairwise fun a b => a.problem = .nestedTooDeeply → b.Heeds s.source

variable {s s₁ s' : Session} {added added' : List Report}

theorem adds_nil (h : s.Onward s') (hreports : s'.reports = s.reports)
    (hmark : s'.abandoned = s.abandoned) : s.Adds [] s' :=
  ⟨h, by rw [hreports, List.append_nil], List.forall_mem_nil _, by simp [hmark],
    fun _ => List.forall_mem_nil _, .nil⟩

theorem adds_note (hs : s.Inside) {problem : Problem} (hproblem : problem ≠ .nestedTooDeeply)
    (hend : problem = .invalidInList → s.rest = [] → s.abandoned = false) :
    s.Adds [⟨problem, s.location⟩] (s.note problem) := by
  refine ⟨onward_note hs problem, rfl, ?_, ?_, fun habandoned => ?_, List.pairwise_singleton _ _⟩
  · exact List.forall_mem_singleton.2 ⟨Int.le_refl _, Int.le_refl _⟩
  · simp [hproblem]
  · refine List.forall_mem_singleton.2 ⟨hproblem, fun hlist => ?_⟩
    -- the report would be one at the end of a text that was given up
    have hrest : s.rest ≠ [] := fun hnil => by simp [hend hlist hnil] at habandoned
    have hpos := List.length_pos_iff.2 hrest
    have hlength := hs.offset_add_length
    show s.location.offset < s.source.length
    omega

theorem adds_abandon (hs : s.Inside) : ∃ added, s.Adds added s.abandon := by
  have honward := onward_abandon hs
  cases habandoned : s.abandoned with
  | true =>
      have hreports : s.abandon.reports = s.reports := by
        rw [reports_abandon, if_pos habandoned]
      exact ⟨[], adds_nil honward hreports habandoned.symm⟩
  | false =>
      refine ⟨[⟨.nestedTooDeeply, s.location⟩], honward, ?_, ?_, ?_, ?_,
        List.pairwise_singleton _ _⟩
      · rw [reports_abandon, if_neg (by simp [habandoned])]
        rfl
      · exact List.forall_mem_singleton.2 ⟨Int.le_refl _, honward.offset_le hs⟩
      · simp
      · simp [habandoned]

/-- **One stretch behind another**: what gives the text up in the first one is heeded in the
    second. -/
theorem Adds.trans (h : s.Adds added s₁) (h₁ : s₁.Adds added' s') (hs : s.Inside) :
    s.Adds (added ++ added') s' := by
  have hsource := h.onward.source
  have hstart := h.onward.offset_le hs
  have hstop := h₁.onward.offset_le h.onward.inside
  refine ⟨h.onward.trans h₁.onward, ?_, ?_, ?_, fun habandoned => ?_, ?_⟩
  · rw [h₁.reports, h.reports, List.append_assoc]
  · refine List.forall_mem_append.2 ⟨fun r hr => ?_, fun r hr => ?_⟩
    · exact ⟨(h.within r hr).1, Int.le_trans (h.within r hr).2 hstop⟩
    · exact ⟨Int.le_trans hstart (h₁.within r hr).1, (h₁.within r hr).2⟩
  · rw [h₁.mark, h.mark, or_assoc]
    refine or_congr_right ?_
    simp only [List.mem_append, or_and_right, exists_or]
  · refine List.forall_mem_append.2 ⟨h.heeds habandoned, ?_⟩
    have hlater := h₁.heeds (h.mark.2 (.inl habandoned))
    rwa [hsource] at hlater
  · refine List.pairwise_append.2 ⟨h.later, ?_, fun a ha b hb hnested => ?_⟩
    · have hlater := h₁.later
      rwa [hsource] at hlater
    · have hheeds := h₁.heeds (h.mark.2 (.inr ⟨a, ha, hnested⟩)) b hb
      rwa [hsource] at hheeds

theorem Step.adds (h : Step s s') (hs : s.Inside) : ∃ added, s.Adds added s' := by
  have honward := h.onward hs
  cases h with
  | past => exact ⟨[], adds_nil honward rfl rfl⟩
  | pastBlanks => exact ⟨[], adds_nil honward rfl rfl⟩
  | invalidExpression => exact ⟨_, adds_note hs (by simp) (by simp)⟩
  | invalidInList hend => exact ⟨_, adds_note hs (by simp) fun _ => hend⟩
  | begin => exact ⟨[], adds_nil honward rfl rfl⟩
  | enter => exact ⟨[], adds_nil honward rfl rfl⟩
  | leave => exact ⟨[], adds_nil honward rfl rfl⟩
  | abandon => exact adds_abandon hs

/-- **Whatever is read, the reports that are added lie between its two ends**, and once the text is
    given up they heed it. -/
theorem Stretch.adds (h : s.Stretch s') (hs : s.Inside) : ∃ added, s.Adds added s' := by
  induction h with
  | refl => exact ⟨[], adds_nil (onward_refl hs) rfl rfl⟩
  | tail _ hstep ih =>
      obtain ⟨added, hadded⟩ := ih
      obtain ⟨added', hadded'⟩ := hstep.adds hadded.onward.inside
      exact ⟨added ++ added', hadded.trans hadded' hs⟩

theorem adds_finished (hs : s.Inside) : ∃ added, s.Adds added s.finished := by
  have hblanks := adds_nil (onward_pastBlanks hs) rfl rfl
  unfold finished
  split
  · exact ⟨[], hblanks⟩
  · have hnoted : s.pastBlanks.Adds _ (s.pastBlanks.note .trailingCharacters) :=
      adds_note hblanks.onward.inside (by simp) (by simp)
    exact ⟨_, hblanks.trans hnoted hs⟩

end Session

/-! ## 2. Rules that give a node -/

/-- A rule gives a node that stands between two sessions, and adds its reports there. -/
structure Session.Gives (s : Session) (node : Node) (s' : Session) : Prop where
  start : s.location.offset ≤ node.span.start.offset
  order : node.span.start.offset ≤ node.span.stop.offset
  stop : node.span.stop.offset ≤ s'.location.offset
  adds : ∃ added, s.Adds added s'

theorem Session.Spans.gives {s s' : Session} {node : Node} (h : s.Spans node s')
    (hstretch : s.Stretch s') (hs : s.Inside) : s.Gives node s' := by
  obtain ⟨hstart, horder, hstop⟩ := h.laid
  exact ⟨hstart, horder, hstop, Session.Stretch.adds hstretch hs⟩

theorem Session.Gives.finished {s s' : Session} {node : Node} (h : s.Gives node s')
    (hs : s.Inside) : s.Gives node s'.finished := by
  obtain ⟨added, hadded⟩ := h.adds
  obtain ⟨added', hadded'⟩ := Session.adds_finished hadded.onward.inside
  have hle := hadded'.onward.offset_le hadded.onward.inside
  exact ⟨h.start, h.order, Int.le_trans h.stop hle, _, hadded.trans hadded' hs⟩

namespace Rule

variable {s : Session}

/-- Where fewer characters are left nothing is passed. -/
theorem runOn_pass_of_lt (hs : s.Inside) {n : Int} (hn : s.rest.length < n) :
    (pass n).runOn s = (.error (.overrun n s.rest.length s.location), s) := by
  have havailable : s.cursor.available = s.rest.length := Cursor.Inside.available_eq hs
  rw [runOn_pass, Cursor.advance, havailable, if_pos hn]
  rfl

/-- A list is read only where a parenthesis opens it. -/
theorem runOn_list_of_ne (rule : Rule Node) (hs : s.Inside) (hrest : s.rest.head? ≠ some '(') :
    (list rule).runOn s = (.error (.listStart (s.rest.take 1) s.location), s) := by
  have hpeek : s.rest.take 1 ≠ ['('] := by
    rwa [Ne, List.take_one, Option.toList_eq_singleton_iff]
  simp [list, runOn_bind, runOn_peek hs, hpeek, Session.opened, Label.plain, Span.empty]

theorem balanced_expressionHere (settings : Settings) :
    Balanced (Command.expressionHere settings) :=
  balanced_get.bind fun _ => balanced_expression _ _

/-- **A call closes all that it opens**, in every dialect and also when it ends in a fault. -/
theorem balanced_perform (settings : Settings) (command : Command) :
    Balanced (command.perform settings) := by
  cases command with
  | root =>
      exact balanced_get.bind fun _ => (balanced_root _ _).bind fun _ => balanced_pure _
  | expression => exact (balanced_expressionHere settings).bind fun _ => balanced_pure _
  | list =>
      exact (balanced_list (balanced_expressionHere settings)).bind fun _ => balanced_pure _
  | invalid => exact balanced_invalid.bind fun _ => balanced_pure _
  | abandon => exact balanced_abandon.bind fun _ => balanced_pure _
  | report => exact (balanced_report _).bind fun _ => balanced_pure _
  | pass => exact (balanced_pass _).bind fun _ => balanced_pure _
  | skipBlanks => exact balanced_skipBlanks.bind fun _ => balanced_pure _
  | rewind =>
      exact (balanced_modify (fun s => s.moveTo (Cursor.start s.source)) fun _ => rfl).bind
        fun _ => (balanced_pass _).bind fun _ => balanced_pure _

/-- Wherever a session stands, an expression is read there with the levels that are left. -/
theorem expressionHere_follows (limit : NestingLimit) :
    (Command.expressionHere ⟨limit, Dialect.standard⟩).Follows
      fun s => Reads (Command.levelsLeft ⟨limit, Dialect.standard⟩ s) s where
  total s hs := (expression_follows _).total s hs
  onward _ _ _ h := h.onward
  maximal _ _ _ h := h.maximal
  run s g s' h hs := (expression_follows _).run s g s' h hs

end Rule

/-! ## 3. What a call keeps -/

namespace Command

/-- The calls of the rules that give a node. -/
def rules : List Command := [.root, .expression, .list, .invalid, .abandon]

/-- Numbers of characters are not negative. -/
def Forward (command : Command) : Prop :=
  ∀ n, command = .pass n ∨ command = .rewind n → 0 ≤ n

/-- The calls that end in a fault, and the fault. -/
inductive Faults (s : Session) : Command → Fault → Prop where
  | pass {n : Int} (hn : s.rest.length < n) :
      Faults s (.pass n) (.overrun n s.rest.length s.location)
  | rewind {n : Int} (hn : s.source.length < n) :
      Faults s (.rewind n) (.overrun n s.source.length Location.origin)
  | list (hrest : s.rest.head? ≠ some '(') :
      Faults s .list (.listStart (s.rest.take 1) s.location)

theorem Faults.unique {s : Session} {command : Command} {fault fault' : Fault}
    (h : command.Faults s fault) (h' : command.Faults s fault') : fault = fault' := by
  cases h with
  | pass =>
      cases h'
      rfl
  | rewind =>
      cases h'
      rfl
  | list =>
      cases h'
      rfl

/-- A list that does not start has a code of its own. -/
theorem Faults.code {s : Session} {command : Command} {fault : Fault}
    (h : command.Faults s fault) : fault.diagnostic?.bind Diagnostic.code? =
      some (if command = .list then "I001".toList else "L001".toList) := by
  cases h with
  | pass => rfl
  | rewind => rfl
  | list => rfl

end Command

/-- What holds of a session between two calls: no expression is open, and the session and all its
    reports stand at locations of the text, whose lines and columns agree with it. -/
structure Session.AtRest (source : Text) (s : Session) : Prop where
  source : s.source = source
  depth : s.depth = 0
  located : s.Located

theorem Session.AtRest.inside {source : Text} {s : Session} (h : s.AtRest source) : s.Inside :=
  ⟨h.located.here.nonneg, h.located.here.le_length⟩

/-- What a call makes of a session. -/
structure Command.Consistent (source : Text) (command : Command) (s : Session)
    (outcome : Except Fault (Option Node) × Session) : Prop where
  atRest : outcome.2.AtRest source
  /-- Reports are only added. -/
  reports : s.reports <+: outcome.2.reports
  /-- A text that was given up stays so. -/
  mark : s.abandoned = true → outcome.2.abandoned = true
  faults : ∀ fault, outcome.1 = .error fault ↔ command.Faults s fault
  codes : ∀ fault, outcome.1 = .error fault → fault.diagnostic?.bind Diagnostic.code? =
    some (if command = .list then "I001".toList else "L001".toList)
  /-- A fault leaves everything as it was, unless it is found on the way back. -/
  unchanged : ∀ fault, outcome.1 = .error fault → (∀ n, command ≠ .rewind n) → outcome.2 = s
  returns : (∃ node, outcome.1 = .ok (some node)) ↔
    command ∈ Command.rules ∧ ∀ fault, ¬ command.Faults s fault
  gives : ∀ node, outcome.1 = .ok (some node) → s.Gives node outcome.2

/-! ## 4. Every call keeps it -/

section Outcomes

variable {settings : Settings} {source : Text} {s s' : Session} {command : Command}

theorem depth_perform {outcome : Except Fault (Option Node)}
    (hrun : (command.perform settings).runOn s = (outcome, s')) : s'.depth = s.depth := by
  simpa [hrun] using Rule.balanced_perform settings command s

/-- A rule that gives a node. -/
theorem consistent_of_gives {node : Node} (h : s.AtRest source)
    (hrun : (command.perform settings).runOn s = (.ok (some node), s'))
    (hcommand : command ∈ Command.rules) (hnot : ∀ fault, ¬ command.Faults s fault)
    (hgives : s.Gives node s') (hlocated : s'.Located) :
    command.Consistent source s ((command.perform settings).runOn s) := by
  rw [hrun]
  obtain ⟨added, hadded⟩ := hgives.adds
  exact {
    atRest := ⟨hadded.onward.source.trans h.source, (depth_perform hrun).trans h.depth, hlocated⟩
    reports := hadded.onward.reports
    mark := fun habandoned => hadded.mark.2 (.inl habandoned)
    faults := fun fault => iff_of_false (by simp) (hnot fault)
    codes := by simp
    unchanged := by simp
    returns := iff_of_true ⟨node, rfl⟩ ⟨hcommand, hnot⟩
    gives := fun other hother => by
      obtain rfl := Option.some.inj (Except.ok.inj hother)
      exact hgives }

/-- A call that gives nothing and ends in no fault. -/
theorem consistent_of_none (h : s.AtRest source)
    (hrun : (command.perform settings).runOn s = (.ok none, s'))
    (hcommand : command ∉ Command.rules) (hnot : ∀ fault, ¬ command.Faults s fault)
    (hsource : s'.source = s.source) (hlocated : s'.Located) (hreports : s.reports <+: s'.reports)
    (hmark : s'.abandoned = s.abandoned) :
    command.Consistent source s ((command.perform settings).runOn s) := by
  rw [hrun]
  exact {
    atRest := ⟨hsource.trans h.source, (depth_perform hrun).trans h.depth, hlocated⟩
    reports := hreports
    mark := fun habandoned => hmark.trans habandoned
    faults := fun fault => iff_of_false (by simp) (hnot fault)
    codes := by simp
    unchanged := by simp
    returns := iff_of_false (by simp) fun h => hcommand h.1
    gives := by simp }

/-- A call that ends in a fault. -/
theorem consistent_of_fault {fault : Fault} (h : s.AtRest source)
    (hrun : (command.perform settings).runOn s = (.error fault, s'))
    (hfault : command.Faults s fault) (hsource : s'.source = s.source) (hlocated : s'.Located)
    (hreports : s'.reports = s.reports) (hmark : s'.abandoned = s.abandoned)
    (hstay : (∀ n, command ≠ .rewind n) → s' = s) :
    command.Consistent source s ((command.perform settings).runOn s) := by
  rw [hrun]
  exact {
    atRest := ⟨hsource.trans h.source, (depth_perform hrun).trans h.depth, hlocated⟩
    reports := hreports ▸ List.prefix_rfl
    mark := fun habandoned => hmark.trans habandoned
    faults := fun other => by
      constructor
      · intro hother
        obtain rfl := Except.error.inj hother
        exact hfault
      · intro hother
        rw [hfault.unique hother]
    codes := fun other hother => by
      obtain rfl := Except.error.inj hother
      exact hfault.code
    unchanged := fun _ _ => hstay
    returns := iff_of_false (by simp) fun h => h.2 fault hfault
    gives := by simp }

end Outcomes

/-- A rule gives a node, and is a stretch of reading that the node stands in. -/
structure Rule.GivesAt (rule : Rule Node) (s : Session) (node : Node) (s' : Session) : Prop where
  run : rule.runOn s = (.ok node, s')
  stretch : s.Stretch s'
  spans : s.Spans node s'

section Rules

variable {s : Session} (hs : s.Inside)

include hs

theorem exists_expression (levels : Nat) :
    ∃ node s', (Rule.expression Dialect.standard levels).GivesAt s node s' := by
  obtain ⟨g, s', hreads⟩ := (expression_follows levels).total s hs
  have hspans := (hreads.covers hs).spans
  rw [← (hreads.onward hs).source] at hspans
  exact ⟨_, s', (expression_follows levels).run _ _ _ hreads hs, hreads.stretch, hspans⟩

theorem exists_list (limit : NestingLimit) (hrest : s.rest.head? = some '(') :
    ∃ node s',
      (Rule.list (Command.expressionHere ⟨limit, Dialect.standard⟩)).GivesAt s node s' := by
  have hfollows := Rule.expressionHere_follows limit
  obtain ⟨after, hafter⟩ := List.head?_eq_some_iff.1 hrest
  obtain ⟨node, s', hparen⟩ := Reading.exists_paren hfollows hs hafter
  exact ⟨node, s', Rule.runOn_list hfollows hparen hs,
    hparen.stretch fun _ _ _ h => h.stretch,
    hparen.spans (fun _ _ _ h => h.onward) (fun _ _ _ h => h.covers) hs⟩

theorem exists_invalid : ∃ node s', Rule.invalid.GivesAt s node s' := by
  have hnoted := Session.onward_note hs .invalidExpression
  have hstretch : s.Stretch (s.note .invalidExpression) := .single (.invalidExpression s)
  by_cases hrest : s.rest = []
  · exact ⟨_, _, Rule.runOn_invalid_nil hs hrest, hstretch,
      Session.spans_closed hs hnoted rfl (.inl rfl) (by simp) (hnoted.offset_le hs)⟩
  · have hpassed := hnoted.past_one hrest
    exact ⟨_, _, Rule.runOn_invalid_of_ne hs hrest,
      hstretch.tail (.past (List.length_pos_iff.2 hrest)),
      Session.spans_closed hs hpassed rfl (.inl rfl) (by simp) (hpassed.offset_le hs)⟩

theorem exists_abandon : ∃ node s', Rule.abandon.GivesAt s node s' := by
  have honward := Session.onward_abandon hs
  exact ⟨_, _, Rule.runOn_abandon hs, .single (.abandon s),
    Session.spans_closed hs honward rfl (.inl rfl) (by simp) (honward.offset_le hs)⟩

/-- The rules give their node wherever in a text they are called. -/
theorem exists_gives (limit : NestingLimit) {command : Command} (hcommand : command ∈ Command.rules)
    (hlocated : s.Located) (hlist : command = .list → s.rest.head? = some '(') :
    ∃ node s', (command.perform ⟨limit, Dialect.standard⟩).runOn s = (.ok (some node), s') ∧
      s.Gives node s' ∧ s'.Located := by
  have hall : ∀ {rule : Rule Node} {node : Node} {s' : Session}, rule.GivesAt s node s' →
      s.Gives node s' ∧ s'.Located := by
    intro rule node s' h
    exact ⟨h.spans.gives h.stretch hs, h.stretch.located hs hlocated⟩
  simp only [Command.rules, List.mem_cons, List.not_mem_nil, or_false] at hcommand
  rcases hcommand with rfl | rfl | rfl | rfl | rfl
  · obtain ⟨node, s', h⟩ := exists_expression hs (Command.levelsLeft ⟨limit, Dialect.standard⟩ s)
    have hinside := (h.stretch.onward hs).inside
    refine ⟨node, s'.finished, ?_, (hall h).1.finished hs, (hall h).2.finished hinside⟩
    simp [Command.perform, Rule.runOn_bind, Rule.runOn_root hinside h.run, Except.map]
  · obtain ⟨node, s', h⟩ := exists_expression hs (Command.levelsLeft ⟨limit, Dialect.standard⟩ s)
    refine ⟨node, s', ?_, hall h⟩
    simp [Command.perform, Command.expressionHere, Rule.runOn_bind, h.run, Except.map]
  · obtain ⟨node, s', h⟩ := exists_list hs limit (hlist rfl)
    refine ⟨node, s', ?_, hall h⟩
    simp [Command.perform, h.run, Except.map]
  · obtain ⟨node, s', h⟩ := exists_invalid hs
    refine ⟨node, s', ?_, hall h⟩
    simp [Command.perform, h.run, Except.map]
  · obtain ⟨node, s', h⟩ := exists_abandon hs
    refine ⟨node, s', ?_, hall h⟩
    simp [Command.perform, h.run, Except.map]

end Rules

section Calls

variable {source : Text} {s : Session} (h : s.AtRest source)

include h

/-- Where the characters to be passed are there, they are passed; where they are not, nothing is. -/
theorem consistent_pass (settings : Settings) {n : Int} (hn : 0 ≤ n) :
    (Command.pass n).Consistent source s (((Command.pass n).perform settings).runOn s) := by
  have hs := h.inside
  obtain ⟨count, rfl⟩ := Int.eq_ofNat_of_zero_le hn
  by_cases hle : count ≤ s.rest.length
  · have hrun : ((Command.pass count).perform settings).runOn s = (.ok none, s.past count) := by
      simp [Command.perform, Rule.runOn_pass_of_le hs hle, Except.map]
    refine consistent_of_none h hrun (by simp [Command.rules]) ?_ rfl (h.located.past hs hle)
      List.prefix_rfl rfl
    intro fault hfault
    cases hfault with
    | pass hlt => omega
  · have hlt : (s.rest.length : Int) < count := by omega
    have hrun : ((Command.pass count).perform settings).runOn s =
        (.error (.overrun count s.rest.length s.location), s) := by
      simp [Command.perform, Rule.runOn_pass_of_lt hs hlt, Except.map]
    exact consistent_of_fault h hrun (.pass hlt) rfl h.located rfl rfl fun _ => rfl

/-- On the way from the start it is the length of the text that matters. -/
theorem consistent_rewind (settings : Settings) {n : Int} (hn : 0 ≤ n) :
    (Command.rewind n).Consistent source s (((Command.rewind n).perform settings).runOn s) := by
  have hstart : (s.moveTo (Cursor.start s.source)).Inside := Session.inside_start s.source
  have hlocated : (s.moveTo (Cursor.start s.source)).Located :=
    ⟨Location.origin_in s.source, h.located.reports⟩
  obtain ⟨count, rfl⟩ := Int.eq_ofNat_of_zero_le hn
  by_cases hle : count ≤ s.source.length
  · have hrun : ((Command.rewind count).perform settings).runOn s =
        (.ok none, (s.moveTo (Cursor.start s.source)).past count) := by
      simp [Command.perform, Rule.runOn_bind, Rule.runOn_pass_of_le hstart hle, Except.map]
    refine consistent_of_none h hrun (by simp [Command.rules]) ?_ rfl (hlocated.past hstart hle)
      List.prefix_rfl rfl
    intro fault hfault
    cases hfault with
    | rewind hlt => omega
  · have hlt : (s.source.length : Int) < count := by omega
    have hrun : ((Command.rewind count).perform settings).runOn s =
        (.error (.overrun count s.source.length Location.origin),
          s.moveTo (Cursor.start s.source)) := by
      simp only [Command.perform, Rule.runOn_bind, Rule.runOn_modify,
        Rule.runOn_pass_of_lt hstart hlt]
      rfl
    exact consistent_of_fault h hrun (.rewind hlt) rfl hlocated rfl rfl
      fun hnot => absurd rfl (hnot count)

/-- **Whatever is called, and wherever, the session stays consistent.** -/
theorem consistent_perform (limit : NestingLimit) {command : Command}
    (hforward : command.Forward) :
    command.Consistent source s ((command.perform ⟨limit, Dialect.standard⟩).runOn s) := by
  have hs := h.inside
  have hgives : ∀ {command : Command}, command ∈ Command.rules →
      (∀ fault, ¬ command.Faults s fault) → (command = .list → s.rest.head? = some '(') →
      command.Consistent source s ((command.perform ⟨limit, Dialect.standard⟩).runOn s) := by
    intro command hcommand hnot hlist
    obtain ⟨node, s', hrun, hgives, hlocated⟩ := exists_gives hs limit hcommand h.located hlist
    exact consistent_of_gives h hrun hcommand hnot hgives hlocated
  cases command with
  | root => exact hgives (by decide) (fun _ hfault => by cases hfault) (by simp)
  | expression => exact hgives (by decide) (fun _ hfault => by cases hfault) (by simp)
  | invalid => exact hgives (by decide) (fun _ hfault => by cases hfault) (by simp)
  | abandon => exact hgives (by decide) (fun _ hfault => by cases hfault) (by simp)
  | list =>
      by_cases hrest : s.rest.head? = some '('
      · refine hgives (by decide) (fun fault hfault => ?_) fun _ => hrest
        cases hfault with
        | list hne => exact hne hrest
      · have hrun : (Command.list.perform ⟨limit, Dialect.standard⟩).runOn s =
            (.error (.listStart (s.rest.take 1) s.location), s) := by
          simp [Command.perform, Rule.runOn_list_of_ne _ hs hrest, Except.map]
        exact consistent_of_fault h hrun (.list hrest) rfl h.located rfl rfl fun _ => rfl
  | report message =>
      have hrun : ((Command.report message).perform ⟨limit, Dialect.standard⟩).runOn s =
          (.ok none, s.note (Problem.ofMessage message)) := rfl
      exact consistent_of_none h hrun (by simp [Command.rules]) (fun _ hfault => by cases hfault)
        rfl (h.located.note _) (List.prefix_append _ _) rfl
  | skipBlanks =>
      have hrun : (Command.skipBlanks.perform ⟨limit, Dialect.standard⟩).runOn s =
          (.ok none, s.pastBlanks) := rfl
      exact consistent_of_none h hrun (by decide) (fun _ hfault => by cases hfault)
        (Session.onward_pastBlanks hs).source (h.located.pastBlanks hs) List.prefix_rfl rfl
  | pass n => exact consistent_pass h _ (hforward n (.inl rfl))
  | rewind n => exact consistent_rewind h _ (hforward n (.inr rfl))

end Calls

/-! ## 5. Any number of calls -/

namespace Command

/-- Carries out one call after the other; a fault ends the call but not the ones behind it. -/
def carryOut (settings : Settings) (commands : List Command) (s : Session) : Session :=
  commands.foldl (fun s command => ((command.perform settings).runOn s).2) s

end Command

theorem atRest_carryOut (limit : NestingLimit) {source : Text} {commands : List Command}
    (hcommands : ∀ command ∈ commands, command.Forward) {s : Session} (h : s.AtRest source) :
    (Command.carryOut ⟨limit, Dialect.standard⟩ commands s).AtRest source := by
  induction commands generalizing s with
  | nil => exact h
  | cons command commands ih =>
      obtain ⟨hfirst, hothers⟩ := List.forall_mem_cons.1 hcommands
      exact ih hothers (consistent_perform h limit hfirst).atRest

theorem atRest_of_parse {limit : NestingLimit} {source : Text} {p : Parse}
    (hparse : parse ⟨limit, Dialect.standard⟩ source = .ok p) : p.session.AtRest source := by
  obtain ⟨g, s', hreads, hother⟩ := exists_parse limit source
  obtain rfl := Except.ok.inj (hparse.symm.trans hother)
  have hs := Session.inside_start source
  have honward := hreads.onward hs
  have hlocated := hreads.stretch.located hs (Session.located_start source)
  exact ⟨honward.finished.source, depth_of_parse hparse, hlocated.finished honward.inside⟩

/-- **A session stays consistent under any sequence of calls.** After a text has been read and any
    number of calls were carried out, whether they ended in faults or not, no expression is open and
    the session stands at a location of its text; and every further call keeps that, only adds
    reports, leaves a text given up, and ends in a fault only where it must. A rule gives a node
    that stands between the cursor before and after, and adds its reports there; in a text that was
    given up none of them says so again or reports a list that is open at the end of the text. -/
theorem session_consistent (limit : NestingLimit) (source : Text) :
    ∃ p, parse ⟨limit, Dialect.standard⟩ source = .ok p ∧
      ∀ commands : List Command, (∀ command ∈ commands, command.Forward) →
        (Command.carryOut ⟨limit, Dialect.standard⟩ commands p.session).AtRest source ∧
        ∀ command : Command, command.Forward →
          command.Consistent source
            (Command.carryOut ⟨limit, Dialect.standard⟩ commands p.session)
            ((command.perform ⟨limit, Dialect.standard⟩).runOn
              (Command.carryOut ⟨limit, Dialect.standard⟩ commands p.session)) := by
  obtain ⟨g, s', hreads, hparse⟩ := exists_parse limit source
  refine ⟨_, hparse, fun commands hcommands => ?_⟩
  have hrest := atRest_carryOut limit hcommands (atRest_of_parse hparse)
  exact ⟨hrest, fun command hforward => consistent_perform hrest limit hforward⟩

/-- Back to a list that is not closed, a number of characters that are not there, a report, and a
    call where no list starts. -/
theorem session_consistent_sample :
    ∃ p, parse ⟨NestingLimit.standard, Dialect.standard⟩ "1+(2".toList = .ok p ∧
      Command.list.Consistent "1+(2".toList
        (Command.carryOut ⟨NestingLimit.standard, Dialect.standard⟩
          [.rewind 2, .list, .pass 9, .report "late".toList] p.session)
        ((Command.list.perform ⟨NestingLimit.standard, Dialect.standard⟩).runOn
          (Command.carryOut ⟨NestingLimit.standard, Dialect.standard⟩
            [.rewind 2, .list, .pass 9, .report "late".toList] p.session)) := by
  obtain ⟨p, hparse, hcalls⟩ := session_consistent NestingLimit.standard "1+(2".toList
  obtain ⟨-, hlist⟩ := hcalls [.rewind 2, .list, .pass 9, .report "late".toList]
    (by simp [Command.Forward])
  exact ⟨p, hparse, hlist .list (by simp [Command.Forward])⟩

end Reckoner
