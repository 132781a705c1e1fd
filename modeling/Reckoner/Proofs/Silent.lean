import Reckoner.Proofs.Phrase

/-!
# What is read without a report

A reading that adds no report has read a phrase. Every other way through the rules leaves a report
behind, and reports stay.

* `Session.Onward.reports_eq` -- if a stretch adds no report, none of its parts does;
* `Stops` -- where an expression ends: no blanks, no infix symbol, and a comma if its last operand
  was left out;
* `Phrased` -- from a session to another a phrase has been read;
* `phrased_of_reads` -- which is so whenever no report was added.
-/

namespace Reckoner

/-! ## 1. Stretches that add no report -/

namespace Session.Onward

variable {s s₁ s' : Session}

theorem reports_eq (h : s.Onward s₁) (h' : s₁.Onward s') (hsilent : s'.reports = s.reports) :
    s₁.reports = s.reports ∧ s'.reports = s₁.reports := by
  have hle := h'.reports
  rw [hsilent] at hle
  have heq : s₁.reports = s.reports := hle.eq_of_length_le h.reports.length_le
  exact ⟨heq, hsilent.trans heq.symm⟩

/-- Where a report was made it stays. -/
theorem not_silent_of_note {problem : Problem} (h : s.Onward s₁)
    (h' : (s₁.note problem).Onward s') : s'.reports ≠ s.reports := by
  intro hsilent
  have hle := h.reports.length_le
  have hle' := h'.reports.length_le
  rw [hsilent] at hle'
  simp only [Session.note, List.length_append, List.length_singleton] at hle'
  omega

/-- The same for a report that is made at once. -/
theorem note_not_silent {problem : Problem} (hs : s.Inside) (h : (s.note problem).Onward s') :
    s'.reports ≠ s.reports :=
  (onward_refl hs).not_silent_of_note h

end Session.Onward

/-! ## 2. Phrases that were read -/

/-- Where an expression ends. -/
structure Stops (whole : Bool) (t : Text) : Prop where
  behindBlanks : t.behindBlanks = t
  noLink : Link.next? t = none
  comma : whole = false → t.head? = some ','

/-- Between two sessions a phrase has been read, and its tree is the one that was built. -/
def Phrased (levels : Nat) (s : Session) (g : Grouping Node) (s' : Session) : Prop :=
  ∃ (whole : Bool) (e : Phrase whole), Spells e.tokens s.rest s'.rest ∧ e.levels ≤ levels ∧
    g.map Node.shape = e.grouping ∧ s'.abandoned = false ∧ Stops whole s'.rest

/-- A separator behind the blanks is the token that comes next. -/
theorem Spells.separator {first second : List Text} {t after after' : Text} {c : Char}
    {s : Session} (h : Spells first t s.rest) (hs : s.Inside)
    (hnext : s.pastBlanks.rest = c :: after) (h' : Spells second after after') :
    Spells (first ++ [c] :: second) t after' := by
  refine spells_append.2 ⟨_, h, after, ?_, h'⟩
  rw [← Session.rest_pastBlanks hs, hnext]
  rfl

namespace Reading

variable {levels : Nat} {inner : Reading} {s s' : Session}
  (honward : ∀ s g s', inner s g s' → s.Inside → s.Onward s')
  (hphrased : ∀ s g s', inner s g s' → s.Inside → s.abandoned = false → s'.reports = s.reports →
    Phrased levels s g s')

include honward hphrased

/-- The items of a list. -/
theorem Items.phrased {nodes : List Node} (h : inner.Items s nodes s') (hs : s.Inside)
    (habandoned : s.abandoned = false) (hsilent : s'.reports = s.reports) :
    ∃ entries : Entries, Spells entries.tokens s.rest s'.rest ∧ entries.levels ≤ levels ∧
      nodes.map Node.shape = entries.trees ∧ s'.abandoned = false := by
  induction h with
  | givenUp _ hgiven => simp [hgiven] at habandoned
  | unclosed =>
      have hnote := Session.onward_refl (s := Session.note _ .invalidInList) hs
      exact absurd hsilent (Session.Onward.note_not_silent hs hnote)
  | @comma s s₁ s' g after nodes _ hitem hnext hitems ih =>
      have h₁ := honward _ _ _ hitem hs
      have h₂ := Session.onward_pastBlanks h₁.inside
      have h₃ := h₂.past_one (by simp [hnext])
      have h₄ := h₃.pastBlanks
      have h₅ := hitems.onward honward h₄.inside
      obtain ⟨hsilent₁, hsilent₂⟩ := h₁.reports_eq (h₄.trans h₅) hsilent
      obtain ⟨whole, e, hspells, hle, hshape, habandoned₁, hstops⟩ :=
        hphrased _ _ _ hitem hs habandoned hsilent₁
      obtain ⟨entries, hspells', hle', hshape', habandoned'⟩ :=
        ih h₄.inside habandoned₁ hsilent₂
      refine ⟨.more e entries, ?_, max_le hle hle', ?_, habandoned'⟩
      · refine hspells.separator h₁.inside hnext (hspells'.congr ?_)
        rw [Session.rest_pastBlanks h₃.inside, Session.rest_past_one h₂.inside hnext,
          Text.behindBlanks_behindBlanks]
      · rw [List.map_cons, hshape', Grouping.shape_node, hshape]
        rfl
  | @closed s s₁ g after _ hitem hnext =>
      have h₁ := honward _ _ _ hitem hs
      have h₂ := Session.onward_pastBlanks h₁.inside
      obtain ⟨whole, e, hspells, hle, hshape, habandoned₁, hstops⟩ :=
        hphrased _ _ _ hitem hs habandoned hsilent
      -- an operand may be left out in front of a comma only, so the last item is whole
      obtain rfl : whole = true := by
        cases whole with
        | true => rfl
        | false =>
            have hcomma := hstops.comma rfl
            rw [← hstops.behindBlanks, ← Session.rest_pastBlanks h₁.inside, hnext] at hcomma
            exact absurd hcomma (by simp)
      refine ⟨.last e, ?_, hle, ?_, habandoned₁⟩
      · refine hspells.separator h₁.inside hnext ?_
        rw [Session.rest_past_one h₂.inside hnext]
        rfl
      · rw [List.map_singleton, Grouping.shape_node, hshape]
        rfl
  | @junk s s₁ s' g c after nodes _ hitem hnext _ _ hitems _ =>
      have h₁ := honward _ _ _ hitem hs
      have h₂ := h₁.pastBlanks
      have h₃ := Session.onward_past_one (Session.onward_note h₂.inside .invalidInList).inside
        (by simp [hnext])
      have h₄ := h₃.trans (hitems.onward honward h₃.inside)
      exact absurd hsilent (h₂.not_silent_of_note h₄)
  | @ended s s₁ s' g nodes _ hitem hnext hitems _ =>
      have h₁ := honward _ _ _ hitem hs
      have h₂ := Session.onward_pastBlanks h₁.inside
      have h₃ := h₂.trans (hitems.onward honward h₂.inside)
      obtain ⟨hsilent₁, hsilent₂⟩ := h₁.reports_eq h₃ hsilent
      obtain ⟨whole, e, -, -, -, habandoned₁, -⟩ := hphrased _ _ _ hitem hs habandoned hsilent₁
      -- the text has ended and was not given up, so the list is reported as unclosed
      cases hitems with
      | givenUp _ hgiven => simp [habandoned₁] at hgiven
      | unclosed =>
          have hnote := Session.onward_refl (s := s₁.pastBlanks.note .invalidInList) h₂.inside
          exact absurd hsilent ((h₁.trans h₂).not_silent_of_note hnote)
      | comma hrest => exact absurd hnext hrest
      | closed hrest => exact absurd hnext hrest
      | junk hrest => exact absurd hnext hrest
      | ended hrest => exact absurd hnext hrest

theorem Paren.phrased {node : Node} (h : inner.Paren s node s') (hs : s.Inside)
    (habandoned : s.abandoned = false) (hsilent : s'.reports = s.reports) :
    ∃ entries : Entries, Spells (['('] :: entries.tokens) s.rest s'.rest ∧
      entries.levels ≤ levels ∧ node.shape = .list entries.trees ∧ s'.abandoned = false := by
  cases h with
  | @list _ after children hrest hitems =>
      have h₁ := Session.onward_past_one hs (by simp [hrest])
      have h₂ := h₁.pastBlanks
      obtain ⟨entries, hspells, hle, hshape, habandoned'⟩ :=
        hitems.phrased honward hphrased h₂.inside habandoned hsilent
      refine ⟨entries, ⟨after, ?_, hspells.congr ?_⟩, hle, ?_, habandoned'⟩
      · rw [hrest]
        rfl
      · rw [Session.rest_pastBlanks h₁.inside, Session.rest_past_one hs hrest,
          Text.behindBlanks_behindBlanks]
      · rw [Session.shape_closed_list, hshape]

theorem Arguments.phrased {node : Node} (h : inner.Arguments s node s') (hs : s.Inside)
    (habandoned : s.abandoned = false) (hsilent : s'.reports = s.reports) :
    ∃ entries : Entries, Spells (['('] :: entries.tokens) s.rest s'.rest ∧
      entries.levels ≤ levels ∧ node.shape = .list entries.trees ∧ s'.abandoned = false := by
  cases h with
  | given hparen => exact hparen.phrased honward hphrased hs habandoned hsilent
  | missing =>
      have hnote := Session.onward_refl (s := s.note .invalidExpression) hs
      exact absurd hsilent (Session.Onward.note_not_silent hs hnote)

/-- An operand, nothing in front of a comma, or a sign and a phrase. -/
theorem Primary.phrased {node : Node} (h : inner.Primary s node s') (hs : s.Inside)
    (habandoned : s.abandoned = false) (hsilent : s'.reports = s.reports) :
    s'.abandoned = false ∧
      ((∃ p : Operand, Spells p.tokens s.rest s'.rest ∧ p.levels ≤ levels ∧ node.shape = p.tree) ∨
        (s' = s ∧ s.rest.head? = some ',' ∧ node.shape = .hole) ∨
        ∃ (whole : Bool) (sign : Token.Sign) (e : Phrase whole),
          Spells ([sign.1] :: e.tokens) s.rest s'.rest ∧ e.levels ≤ levels ∧
            node.shape = .signed sign.1 e.tree ∧ Stops whole s'.rest) := by
  cases h with
  | exhausted =>
      have hnote := Session.onward_refl (s := s.note .invalidExpression) hs
      exact absurd hsilent (Session.Onward.note_not_silent hs hnote)
  | invalid hrest =>
      have hnote := Session.onward_past_one (s := s.note .invalidExpression) hs hrest
      exact absurd hsilent (Session.Onward.note_not_silent hs hnote)
  | @number x hmatch =>
      obtain ⟨hnumeral, after, hrest⟩ := Numeral.isNumeral_of_lexeme? hmatch
      refine ⟨habandoned, .inl ⟨.number ⟨x, hnumeral⟩, ⟨after, ?_, ?_⟩, Nat.zero_le _, ?_⟩⟩
      · rw [← hrest, behindBlanks_of_solid hnumeral.solid]
      · rw [Session.rest_past_append hs hrest.symm]
        rfl
      · exact Session.shape_closed_number hs hrest.symm
  | list hparen =>
      obtain ⟨entries, hspells, hle, hshape, habandoned'⟩ :=
        hparen.phrased honward hphrased hs habandoned hsilent
      exact ⟨habandoned', .inl ⟨.list entries, hspells, hle, hshape⟩⟩
  | placeholder hrest =>
      have hhead : s.rest.head? = some ',' := by rw [hrest, List.head?_cons]
      exact ⟨habandoned, .inr (.inl ⟨rfl, hhead, Session.shape_closed_hole _ _⟩)⟩
  | @prefixed s' sign after g hrest hsign hoperand =>
      have h₁ := Session.onward_past_one hs (by simp [hrest])
      obtain ⟨whole, e, hspells, hle, hshape, habandoned', hstops⟩ :=
        hphrased _ _ _ hoperand h₁.inside habandoned hsilent
      refine ⟨habandoned', .inr (.inr ⟨whole, ⟨sign, hsign⟩, e, ⟨after, ?_, ?_⟩, hle, ?_, hstops⟩)⟩
      · rw [hrest]
        exact behindBlanks_of_solid (Token.Sign.solid ⟨sign, hsign⟩) after
      · rwa [Session.rest_past_one hs hrest] at hspells
      · rw [Session.shape_closed_signed, Grouping.shape_node, hshape]
        rfl
  | @call s' kind x given hkind hmatch hgiven =>
      have hname : x ∈ Keyword.all := Token.Kind.mem_keyword_of_match? hkind hmatch
      have hpre := Token.Kind.prefix_of_match? hmatch
      have h₁ := Session.onward_past_prefix hs hpre
      have h₂ := h₁.pastBlanks
      obtain ⟨after, hrest⟩ := hpre
      obtain ⟨entries, hspells, hle, hshape, habandoned'⟩ :=
        hgiven.phrased honward hphrased h₂.inside habandoned hsilent
      refine ⟨habandoned', .inl ⟨.call ⟨x, hname⟩ entries, ⟨after, ?_, ?_⟩, hle, ?_⟩⟩
      · rw [← hrest]
        exact behindBlanks_of_solid (Keyword.Name.solid ⟨x, hname⟩) after
      · refine hspells.congr ?_
        rw [Session.rest_pastBlanks h₁.inside, Session.rest_past_append hs hrest.symm,
          Text.behindBlanks_behindBlanks]
      · rw [Session.shape_closed_applied s s' s.location hkind hmatch, hshape]
        rfl

end Reading

/-- Behind an operand that ends like an expression, the expression ends. -/
theorem Reading.Tail.eq_of_stops {inner : Reading} {s s' : Session} {first : Node}
    {g : Grouping Node} (h : inner.Tail s.pastBlanks first g s') (hs : s.Inside) {whole : Bool}
    (hstops : Stops whole s.rest) :
    g = .operand first ∧ s'.rest = s.rest ∧ s'.abandoned = s.abandoned := by
  have hrest : s.pastBlanks.rest = s.rest := by
    rw [Session.rest_pastBlanks hs, hstops.behindBlanks]
  cases h with
  | stop => exact ⟨rfl, hrest, rfl⟩
  | link hnext =>
      rw [hrest, hstops.noLink] at hnext
      cases hnext

theorem noLink_of_comma {t : Text} (h : t.head? = some ',') : Link.next? t = none := by
  apply Link.next?_eq_none
  intro c hc
  obtain rfl : ',' = c := by simpa [h] using hc
  decide

/-- An operand and what follows it. -/
theorem Reading.Tail.phrased {levels : Nat} {inner : Reading} {s s' : Session}
    (hphrased : ∀ s g s', inner s g s' → s.Inside → s.abandoned = false →
      s'.reports = s.reports → Phrased levels s g s')
    {first : Node} {g : Grouping Node} (h : inner.Tail s.pastBlanks first g s') (hs : s.Inside)
    (habandoned : s.abandoned = false) (hsilent : s'.reports = s.reports) {p : Operand}
    (hp : p.levels ≤ levels) (hfirst : first.shape = p.tree) {t : Text}
    (hspells : Spells p.tokens t s.rest) :
    ∃ (whole : Bool) (e : Phrase whole), Spells e.tokens t s'.rest ∧ e.levels ≤ levels + 1 ∧
      g.map Node.shape = e.grouping ∧ s'.abandoned = false ∧ Stops whole s'.rest := by
  have hin := (Session.onward_pastBlanks hs).inside
  have hrest := Session.rest_pastBlanks hs
  cases h with
  | stop hnone =>
      refine ⟨true, .operand p, hspells.congr_after ?_, Nat.succ_le_succ hp, ?_, habandoned, ?_⟩
      · rw [hrest, Text.behindBlanks_behindBlanks]
      · rw [Grouping.map, hfirst]
        rfl
      · exact ⟨by rw [hrest, Text.behindBlanks_behindBlanks], hnone, by simp⟩
  | @link _ _ link g hnext hright =>
      have hpre := Link.symbol_prefix_of_next? hnext
      have h₁ := Session.onward_past_prefix hin hpre
      obtain ⟨after, hafter⟩ := hpre
      obtain ⟨whole, e, hspells', hle, hshape, habandoned', hstops⟩ :=
        hphrased _ _ _ hright h₁.inside habandoned hsilent
      rw [Session.rest_past_append hin hafter.symm] at hspells'
      refine ⟨whole, .linked p link e, ?_, Nat.succ_le_succ (max_le hp hle), ?_, habandoned',
        hstops⟩
      · exact spells_append.2 ⟨_, hspells, after, by rw [← hrest, hafter], hspells'⟩
      · rw [Grouping.map_settle, hfirst, hshape]
        rfl

/-- **A reading that adds no report has read a phrase.** -/
theorem phrased_of_reads {levels : Nat} {s s' : Session} {g : Grouping Node}
    (h : Reads levels s g s') (hs : s.Inside) (habandoned : s.abandoned = false)
    (hsilent : s'.reports = s.reports) : Phrased levels s g s' := by
  induction levels generalizing s g s' with
  | zero =>
      -- no level is left, and the text was not given up before: now it is, with a report
      obtain ⟨rfl, rfl⟩ := h
      have habandon : s.begin.abandon =
          (s.begin.note .nestedTooDeeply).giveUp.past s.begin.rest.length := by
        have hbegin : s.begin.abandoned = false := habandoned
        rw [Session.abandon, hbegin]
        rfl
      have h₁ := Session.onward_begin hs
      have h₂ := Session.onward_giveUp (Session.onward_note h₁.inside .nestedTooDeeply).inside
      have h₃ := h₂.trans (Session.onward_past h₂.inside (n := s.begin.rest.length) (Nat.le_refl _))
      exact absurd hsilent (h₁.not_silent_of_note (habandon ▸ h₃))
  | succ levels ih =>
      obtain ⟨first, s₁, s₂, hprimary, htail, rfl⟩ := h
      have honward : ∀ s g s', Reads levels s g s' → s.Inside → s.Onward s' :=
        fun _ _ _ => Reads.onward
      have hphrased : ∀ s g s', Reads levels s g s' → s.Inside → s.abandoned = false →
          s'.reports = s.reports → Phrased levels s g s' := fun _ _ _ => ih
      have h₁ := Session.onward_entered hs
      have h₂ := hprimary.onward honward h₁.inside
      have h₃ := Session.onward_pastBlanks h₂.inside
      have h₄ := h₃.trans (htail.onward honward h₃.inside)
      obtain ⟨hsilent₁, hsilent₂⟩ := h₂.reports_eq h₄ hsilent
      have hself : s.entered.rest.behindBlanks = s.entered.rest := by
        rw [Session.rest_entered hs, Text.behindBlanks_behindBlanks]
      have hstart : s.entered.rest.behindBlanks = s.rest.behindBlanks := by
        rw [hself, Session.rest_entered hs]
      obtain ⟨habandoned₁, ⟨p, hspells, hle, hshape⟩ | ⟨rfl, hcomma, hshape⟩ |
          ⟨whole, sign, e, hspells, hle, hshape, hstops⟩⟩ :=
        hprimary.phrased honward hphrased h₁.inside habandoned hsilent₁
      · exact htail.phrased hphrased h₂.inside habandoned₁ hsilent₂ hle hshape
          (hspells.congr hstart)
      · have hstops : Stops false s.entered.rest :=
          ⟨hself, noLink_of_comma hcomma, fun _ => hcomma⟩
        obtain ⟨rfl, hrest, habandoned₂⟩ := htail.eq_of_stops h₁.inside hstops
        refine ⟨false, .omitted, ?_, Nat.succ_le_succ (Nat.zero_le _), ?_,
          habandoned₂.trans habandoned₁, hrest ▸ hstops⟩
        · show s.rest.behindBlanks = s₂.rest.behindBlanks
          rw [hrest, hstart]
        · rw [Grouping.map, hshape]
          rfl
      · obtain ⟨rfl, hrest, habandoned₂⟩ := htail.eq_of_stops h₂.inside hstops
        refine ⟨whole, .signed sign e, ?_, Nat.succ_le_succ hle, ?_,
          habandoned₂.trans habandoned₁, hrest ▸ hstops⟩
        · show Spells _ s.rest s₂.rest
          rw [hrest]
          exact hspells.congr hstart
        · rw [Grouping.map, hshape]
          rfl

end Reckoner
