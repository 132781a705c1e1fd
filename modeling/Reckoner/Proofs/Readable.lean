import Reckoner.Proofs.Silent

/-!
# Phrases are read without a report

Where a phrase is spelt and something stands behind it that ends it, the phrase is read to its end
and its tree is built.

* `Closes` -- what may stand behind a phrase;
* `Readable` -- what is to be shown of the relation for expressions, and what the parts of an
  expression need of it; `Entries.readable`, `Operand.readable` -- the parts;
* `exists_reads_of_spells` -- every phrase is readable;
* `exists_phrase_of_parse`, `exists_parse_of_phrase` -- so the texts without reports are the texts
  of whole phrases, and their trees are the trees of the phrases.
-/

namespace Reckoner

/-! ## 1. What ends a phrase -/

/-- What may follow a phrase, behind blanks: a comma, and behind a whole one also the end of the
    text or a closing parenthesis. -/
def Closes (whole : Bool) (after : Text) : Prop :=
  after.behindBlanks.head? = some ',' ∨
    whole = true ∧ (after.behindBlanks = [] ∨ after.behindBlanks.head? = some ')')

theorem Closes.head_mem {whole : Bool} {after : Text} (h : Closes whole after) :
    ∀ c ∈ after.behindBlanks.head?, c = ',' ∨ c = ')' := by
  intro c hc
  rcases h with h | ⟨-, h | h⟩
  · exact .inl (Option.mem_unique hc h)
  · simp [h] at hc
  · exact .inr (Option.mem_unique hc h)

theorem Closes.noLink {whole : Bool} {after : Text} (h : Closes whole after) :
    Link.next? after.behindBlanks = none := by
  apply Link.next?_eq_none
  intro c hc
  rcases h.head_mem c hc with rfl | rfl
  · decide
  · decide

theorem Closes.breaks {whole : Bool} {after : Text} (h : Closes whole after) :
    after.behindBlanks.Breaks := by
  intro c hc
  rcases h.head_mem c hc with rfl | rfl
  · decide
  · decide

/-- Blanks end a number or a word, so only what stands behind them matters. -/
theorem Text.breaks_of_behindBlanks {t : Text} (h : t.behindBlanks.Breaks) : t.Breaks := by
  obtain ⟨blank, hblank, ht⟩ := t.exists_behindBlanks
  rw [ht]
  exact hblank.breaks h

theorem Spells.ne_nil {tokens : List Text} (hsolid : Solid tokens) (hne : tokens ≠ [])
    {t after : Text} (h : Spells tokens t after) : t ≠ [] := by
  rintro rfl
  cases tokens with
  | nil => exact hne rfl
  | cons x tokens =>
      obtain ⟨next, hnext, -⟩ := h
      have hx : x = [] := by
        have hnil : [] = x ++ next := hnext
        exact (List.append_eq_nil_iff.1 hnil.symm).1
      exact hsolid.cons.1.1 hx

/-- Behind an infix symbol no star follows that could belong to it. -/
theorem Phrase.head_ne_star {whole : Bool} (e : Phrase whole) {t after : Text}
    (h : Spells e.tokens t after) (hcloses : Closes whole after) : t.head? ≠ some '*' := by
  intro hstar
  have hself : t.behindBlanks = t := by
    apply Text.behindBlanks_eq_self
    intro c hc
    obtain rfl := Option.mem_unique hc hstar
    decide
  rcases e.exists_lead with ⟨-, htokens⟩ | ⟨c, x, tokens, htokens, hlead⟩
  · rw [htokens] at h
    have hafter : t.behindBlanks = after.behindBlanks := h
    rcases hcloses.head_mem '*' (by rw [← hafter, hself]; exact hstar) with hc | hc
    · exact absurd hc (by decide)
    · exact absurd hc (by decide)
  · rw [htokens] at h
    obtain ⟨next, hnext, -⟩ := h
    rw [hself] at hnext
    obtain rfl : c = '*' := by simpa [hnext] using hstar
    exact absurd hlead (by decide)

/-- An infix symbol ends the number or the word in front of it. -/
theorem Link.breaks (link : Link) (next : Text) : (link.symbol ++ next).Breaks := by
  have hall : ∀ o ∈ Token.infixSymbols, ∀ c ∈ o.take 1, c ∈ Text.breaks := by decide
  intro c hc
  obtain ⟨d, x, hx⟩ := List.exists_cons_of_ne_nil link.solid.1
  obtain rfl : d = c := by simpa [hx] using hc
  exact hall link.symbol link.isInfix d (by simp [hx])

/-! ## 2. The parts of a phrase -/

/-- Phrases of a number of levels are read without a report wherever something behind them ends
    them. -/
def Readable (levels : Nat) (inner : Reading) : Prop :=
  ∀ (whole : Bool) (e : Phrase whole) (s : Session) (after : Text), e.levels ≤ levels →
    s.Inside → Spells e.tokens s.rest after → Closes whole after →
      ∃ g s', inner s g s' ∧ s'.rest = after.behindBlanks ∧ s'.reports = s.reports ∧
        g.map Node.shape = e.grouping

section Readable

variable {levels : Nat} {inner : Reading} {s : Session} {after : Text}
  (honward : ∀ s g s', inner s g s' → s.Inside → s.Onward s') (hreadable : Readable levels inner)

include honward hreadable

theorem Entries.readable : ∀ (entries : Entries) {s : Session}, entries.levels ≤ levels →
    s.Inside → Spells entries.tokens s.rest after →
      ∃ nodes s', inner.Items s nodes s' ∧ s'.rest.behindBlanks = after.behindBlanks ∧
        s'.reports = s.reports ∧ nodes.map Node.shape = entries.trees
  | .last e, s, hle, hs, h => by
      have hne := h.ne_nil (Entries.last e).solid (by simp [Entries.tokens])
      obtain ⟨u, he, next, hu, hnext⟩ := spells_append.1 h
      obtain ⟨g, s₁, hitem, hrest, hsilent, hshape⟩ :=
        hreadable true e s u hle hs he (.inr ⟨rfl, .inr (by rw [hu]; rfl)⟩)
      have h₁ := honward _ _ _ hitem hs
      have hclose : s₁.pastBlanks.rest = ')' :: next := by
        rw [Session.rest_pastBlanks h₁.inside, hrest, Text.behindBlanks_behindBlanks, hu]
        rfl
      refine ⟨_, _, .closed hne hitem hclose, ?_, hsilent, ?_⟩
      · rw [Session.rest_past_one (Session.onward_pastBlanks h₁.inside).inside hclose]
        exact hnext
      · rw [List.map_singleton, Grouping.shape_node, hshape]
        rfl
  | @Entries.more whole e rest, s, hle, hs, h => by
      have hne := h.ne_nil (Entries.more e rest).solid (by simp [Entries.tokens])
      obtain ⟨u, he, next, hu, hrest'⟩ := spells_append.1 h
      obtain ⟨g, s₁, hitem, hrest, hsilent, hshape⟩ :=
        hreadable whole e s u (le_trans (le_max_left _ _) hle) hs he (.inl (by rw [hu]; rfl))
      have h₁ := honward _ _ _ hitem hs
      have h₂ := Session.onward_pastBlanks h₁.inside
      have hcomma : s₁.pastBlanks.rest = ',' :: next := by
        rw [Session.rest_pastBlanks h₁.inside, hrest, Text.behindBlanks_behindBlanks, hu]
        rfl
      have h₃ := Session.onward_past_one h₂.inside (by simp [hcomma])
      have h₄ := Session.onward_pastBlanks h₃.inside
      have hstart : next.behindBlanks = (s₁.pastBlanks.past 1).pastBlanks.rest.behindBlanks := by
        rw [Session.rest_pastBlanks h₃.inside, Session.rest_past_one h₂.inside hcomma,
          Text.behindBlanks_behindBlanks]
      obtain ⟨nodes, s', hitems, hafter, hsilent', hshape'⟩ :=
        Entries.readable rest (le_trans (le_max_right _ _) hle) h₄.inside (hrest'.congr hstart)
      refine ⟨_, s', .comma hne hitem hcomma hitems, hafter, hsilent'.trans hsilent, ?_⟩
      rw [List.map_cons, hshape', Grouping.shape_node, hshape]
      rfl

theorem Entries.readable_list (entries : Entries) (hle : entries.levels ≤ levels) (hs : s.Inside)
    (hstart : s.rest.behindBlanks = s.rest) (h : Spells (['('] :: entries.tokens) s.rest after) :
    ∃ node s', inner.Paren s node s' ∧ s'.rest.behindBlanks = after.behindBlanks ∧
      s'.reports = s.reports ∧ node.shape = .list entries.trees := by
  obtain ⟨next, hnext, hentries⟩ := h
  have hopen : s.rest = '(' :: next := hstart.symm.trans hnext
  have h₁ := Session.onward_past_one hs (by simp [hopen])
  have h₂ := Session.onward_pastBlanks h₁.inside
  have hnext' : next.behindBlanks = (s.past 1).pastBlanks.rest.behindBlanks := by
    rw [Session.rest_pastBlanks h₁.inside, Session.rest_past_one hs hopen,
      Text.behindBlanks_behindBlanks]
  obtain ⟨nodes, s', hitems, hafter, hsilent, hshape⟩ :=
    entries.readable honward hreadable hle h₂.inside (hentries.congr hnext')
  exact ⟨_, s', .list hopen hitems, hafter, hsilent, by rw [Session.shape_closed_list, hshape]⟩

theorem Operand.readable (p : Operand) (hle : p.levels ≤ levels) (hs : s.Inside)
    (hstart : s.rest.behindBlanks = s.rest) (h : Spells p.tokens s.rest after)
    (hafter : after.behindBlanks.Breaks) :
    ∃ node s', inner.Primary s node s' ∧ s'.rest.behindBlanks = after.behindBlanks ∧
      s'.reports = s.reports ∧ node.shape = p.tree := by
  cases p with
  | number x =>
      obtain ⟨next, hnext, hblank⟩ := h
      have hrest : s.rest = x.1 ++ next := hstart.symm.trans hnext
      have hblanks : next.behindBlanks = after.behindBlanks := hblank
      have hbreaks : next.Breaks := Text.breaks_of_behindBlanks (hblanks ▸ hafter)
      have hmatch : Numeral.lexeme? s.rest = some x.1 := by
        rw [hrest, Numeral.lexeme?_append x.2 hbreaks]
      refine ⟨_, _, .number hmatch, ?_, rfl, Session.shape_closed_number hs hrest⟩
      rw [Session.rest_past_append hs hrest]
      exact hblank
  | list entries =>
      obtain ⟨node, s', hparen, hrest, hsilent, hshape⟩ :=
        entries.readable_list honward hreadable hle hs hstart h
      exact ⟨node, s', .list hparen, hrest, hsilent, hshape⟩
  | call name entries =>
      obtain ⟨next, hnext, hlist⟩ := h
      have hrest : s.rest = name.1 ++ next := hstart.symm.trans hnext
      have hbreaks : next.Breaks := by
        obtain ⟨after', hopen, -⟩ := hlist
        apply Text.breaks_of_behindBlanks
        intro c hc
        obtain rfl : c = '(' := by simpa [hopen, eq_comm] using hc
        decide
      obtain ⟨kind, hkind, hmatch⟩ : ∃ kind : Token.Kind, kind.isFunction = true ∧
          kind.match? s.rest = some name.1 := by
        rw [hrest]
        rcases List.mem_append.1 name.2 with hname | hname
        · exact ⟨.binaryFunction, rfl,
            Keyword.match?_append (fun _ => List.mem_append_left _) hname hbreaks⟩
        · exact ⟨.unaryFunction, rfl,
            Keyword.match?_append (fun _ => List.mem_append_right _) hname hbreaks⟩
      have h₁ := Session.onward_past_prefix hs (Token.Kind.prefix_of_match? hmatch)
      have h₂ := Session.onward_pastBlanks h₁.inside
      have hself : (s.past name.1.length).pastBlanks.rest = next.behindBlanks := by
        rw [Session.rest_pastBlanks h₁.inside, Session.rest_past_append hs hrest]
      obtain ⟨given, s', hparen, hend, hsilent, hshape⟩ :=
        entries.readable_list honward hreadable hle h₂.inside
          (by rw [hself, Text.behindBlanks_behindBlanks])
          (hlist.congr (by rw [hself, Text.behindBlanks_behindBlanks]))
      refine ⟨_, s', .call hkind hmatch (.given hparen), hend, hsilent, ?_⟩
      rw [Session.shape_closed_applied s s' s.location hkind hmatch, hshape]
      rfl

end Readable

/-! ## 3. Phrases -/

/-- A primary with no infix symbol behind it is an expression. -/
theorem Reads.of_primary {levels : Nat} {s s₁ : Session} {first : Node} {after : Text}
    (hprimary : (Reads levels).Primary s.entered first s₁) (hs : s₁.Inside)
    (hrest : s₁.rest.behindBlanks = after.behindBlanks)
    (hnone : Link.next? after.behindBlanks = none) :
    ∃ s', Reads (levels + 1) s (.operand first) s' ∧ s'.rest = after.behindBlanks ∧
      s'.reports = s₁.reports := by
  have hend : s₁.pastBlanks.rest = after.behindBlanks := by
    rw [Session.rest_pastBlanks hs, hrest]
  exact ⟨_, ⟨first, s₁, _, hprimary, .stop (by rw [hend, hnone]), rfl⟩, hend, rfl⟩

/-- An operand, a symbol and a phrase behind it are read if the phrase is. -/
theorem Reads.of_linked {levels : Nat} {s : Session} {after : Text}
    (ih : Readable levels (Reads levels)) {whole : Bool} (p : Operand) (link : Link)
    (e : Phrase whole) (hle : (Phrase.linked p link e).levels ≤ levels + 1) (hs : s.Inside)
    (h : Spells (Phrase.linked p link e).tokens s.entered.rest after)
    (hcloses : Closes whole after) :
    ∃ g s', Reads (levels + 1) s g s' ∧ s'.rest = after.behindBlanks ∧ s'.reports = s.reports ∧
      g.map Node.shape = (Phrase.linked p link e).grouping := by
  have honward : ∀ s g s', Reads levels s g s' → s.Inside → s.Onward s' :=
    fun _ _ _ => Reads.onward
  have hle' := Nat.max_le.1 (Nat.le_of_succ_le_succ hle)
  have h₁ := Session.onward_entered hs
  have hself : s.entered.rest.behindBlanks = s.entered.rest := by
    rw [Session.rest_entered hs, Text.behindBlanks_behindBlanks]
  -- the operand is ended by the symbol behind it, the symbol by the right operand
  obtain ⟨u, hp, next, hnext, he⟩ := spells_append.1 h
  have hbreaks : u.behindBlanks.Breaks := by
    rw [hnext]
    exact link.breaks next
  obtain ⟨node, s₁, hprimary, hrest, hsilent, hshape⟩ :=
    p.readable honward ih hle'.1 h₁.inside hself hp hbreaks
  have h₂ := hprimary.onward honward h₁.inside
  have h₃ := Session.onward_pastBlanks h₂.inside
  have hlink : s₁.pastBlanks.rest = link.symbol ++ next := by
    rw [Session.rest_pastBlanks h₂.inside, hrest, hnext]
  have hlink? : Link.next? s₁.pastBlanks.rest = some link := by
    rw [hlink]
    exact link.next?_append (e.head_ne_star he hcloses)
  have h₄ := Session.onward_past_prefix h₃.inside (Link.symbol_prefix_of_next? hlink?)
  obtain ⟨g, s₂, hright, hafter, hsilent', hshape'⟩ := ih whole e _ after hle'.2 h₄.inside
    ((Session.rest_past_append h₃.inside hlink).symm ▸ he) hcloses
  refine ⟨_, _, ⟨node, s₁, s₂, hprimary, .link hlink? hright, rfl⟩, hafter,
    hsilent'.trans hsilent, ?_⟩
  rw [Grouping.map_settle, hshape, hshape']
  rfl

/-- **A phrase is read without a report** wherever it is spelt and something behind it ends it, and
    its tree is built. -/
theorem exists_reads_of_spells (levels : Nat) : Readable levels (Reads levels) := by
  induction levels with
  | zero =>
      intro whole e s after hle
      cases e <;> simp [Phrase.levels] at hle
  | succ levels ih =>
      intro whole e s after hle hs h hcloses
      have honward : ∀ s g s', Reads levels s g s' → s.Inside → s.Onward s' :=
        fun _ _ _ => Reads.onward
      have h₁ := Session.onward_entered hs
      have hself : s.entered.rest.behindBlanks = s.entered.rest := by
        rw [Session.rest_entered hs, Text.behindBlanks_behindBlanks]
      have hspells : Spells e.tokens s.entered.rest after :=
        h.congr (by rw [hself, Session.rest_entered hs])
      cases e with
      | omitted =>
          have hafter : s.entered.rest = after.behindBlanks := hself.symm.trans hspells
          obtain ⟨next, hnext⟩ : ∃ next, s.entered.rest = ',' :: next := by
            rcases hcloses with hcomma | ⟨hfalse, -⟩
            · exact List.head?_eq_some_iff.1 (hafter ▸ hcomma)
            · cases hfalse
          obtain ⟨s', hreads, hrest, hsilent⟩ :=
            Reads.of_primary (.placeholder hnext) h₁.inside hspells hcloses.noLink
          exact ⟨_, s', hreads, hrest, hsilent, rfl⟩
      | operand p =>
          obtain ⟨node, s₁, hprimary, hrest, hsilent, hshape⟩ := p.readable honward ih
            (Nat.le_of_succ_le_succ hle) h₁.inside hself hspells hcloses.breaks
          have h₂ := hprimary.onward honward h₁.inside
          obtain ⟨s', hreads, hrest', hsilent'⟩ :=
            Reads.of_primary hprimary h₂.inside hrest hcloses.noLink
          refine ⟨_, s', hreads, hrest', hsilent'.trans hsilent, ?_⟩
          rw [Grouping.map, hshape]
          rfl
      | signed sign e =>
          obtain ⟨next, hnext, he⟩ := hspells
          have hsign : s.entered.rest = sign.1 :: next := hself.symm.trans hnext
          have h₂ := h₁.past_one (by simp [hsign])
          have hrest := Session.rest_past_one h₁.inside hsign
          obtain ⟨g, s₁, hoperand, hafter, hsilent, hshape⟩ := ih whole e _ after
            (Nat.le_of_succ_le_succ hle) h₂.inside (hrest.symm ▸ he) hcloses
          have h₃ := honward _ _ _ hoperand h₂.inside
          obtain ⟨s', hreads, hrest', hsilent'⟩ :=
            Reads.of_primary (.prefixed hsign sign.2 hoperand) h₃.inside
              (by rw [hafter, Text.behindBlanks_behindBlanks]) hcloses.noLink
          refine ⟨_, s', hreads, hrest', hsilent'.trans hsilent, ?_⟩
          rw [Grouping.map, Session.shape_closed_signed, Grouping.shape_node, hshape]
          rfl
      | linked p link e => exact Reads.of_linked ih p link e hle hs hspells hcloses

/-! ## 4. Whole texts -/

/-- **A text without reports is the text of a whole phrase**, and its tree is that of the phrase. -/
theorem exists_phrase_of_parse {limit : NestingLimit} {source : Text} {p : Parse}
    (hparse : parse ⟨limit, Dialect.standard⟩ source = .ok p) (hsilent : p.hasErrors = false) :
    ∃ e : Phrase true, Spaced e.tokens source ∧ e.levels ≤ limit.levels ∧
      p.root.shape = e.tree := by
  obtain ⟨g, s', h, hresult⟩ := exists_parse limit source
  obtain rfl : p = ⟨g.node s'.source, s'.finished⟩ := by
    rw [hresult] at hparse
    exact (Except.ok.inj hparse).symm
  have hreports : s'.finished.reports = [] := by
    simpa [Parse.hasErrors, Parse.reports] using hsilent
  have hs := Session.inside_start source
  have hend : s'.pastBlanks.rest = [] := by
    refine Classical.byContradiction fun hrest => ?_
    rw [Session.finished, if_neg hrest] at hreports
    simp [Session.note] at hreports
  rw [Session.finished, if_pos hend] at hreports
  obtain ⟨whole, e, hspells, hle, hshape, -, hstops⟩ := phrased_of_reads h hs rfl hreports
  have hrest : s'.rest = [] := by
    rw [← hstops.behindBlanks, ← Session.rest_pastBlanks (h.onward hs).inside, hend]
  cases whole with
  | false =>
      have hcomma := hstops.comma rfl
      rw [hrest] at hcomma
      cases hcomma
  | true =>
      rw [hrest] at hspells
      refine ⟨e, (spaced_iff_spells e.solid).2 hspells, hle, ?_⟩
      rw [Grouping.shape_node, hshape]
      rfl

/-- **The text of a whole phrase has no reports**, and its tree is that of the phrase. -/
theorem exists_parse_of_phrase {limit : NestingLimit} {source : Text} (e : Phrase true)
    (hspaced : Spaced e.tokens source) (hle : e.levels ≤ limit.levels) :
    ∃ p, parse ⟨limit, Dialect.standard⟩ source = .ok p ∧ p.hasErrors = false ∧
      p.root.shape = e.tree := by
  have hs := Session.inside_start source
  obtain ⟨g, s', h, hrest, hsilent, hshape⟩ := exists_reads_of_spells limit.levels true e
    (Session.start source) [] hle hs ((spaced_iff_spells e.solid).1 hspaced) (.inr ⟨rfl, .inl rfl⟩)
  have hend : s'.pastBlanks.rest = [] := by
    rw [Session.rest_pastBlanks (h.onward hs).inside, hrest]
    rfl
  refine ⟨_, parse_eq h, ?_, ?_⟩
  · rw [Session.finished, if_pos hend]
    simp [Parse.hasErrors, Parse.reports, hsilent, Session.start]
  · rw [Grouping.shape_node, hshape]
    rfl

end Reckoner
