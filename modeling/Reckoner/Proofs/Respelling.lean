import Reckoner.Proofs.Placeholders
import Reckoner.Proofs.Reparsing
import Reckoner.Proofs.Spelling

/-!
# Reading a respelled text

A text that is read without a report has its infix symbols between operands, so respelling them
makes no other tokens of it, and it is read the same way at the same places.

* `Session.respelled` -- a session over the respelled text; each step of reading keeps it one;
* `Reads.respells` -- what is read without a report is read in the respelled text too, with the
  respelled chain;
* `parse_respelled` -- so the respelled text has no report either, and the same tree exactly where
  nothing is mixed.
-/

namespace Reckoner

open Text (respell respellChar)

/-! ## 1. Sessions over the respelled text -/

namespace Cursor

/-- The cursor at the same place of the respelled text. -/
def respelled (c : Cursor) : Cursor := { c with source := respell c.source }

variable (c : Cursor)

theorem index_respelled (i : Int) : c.respelled.source.index i = c.source.index i := by
  unfold Text.index
  rw [respelled, Text.length_respell]

theorem remaining_respelled : c.respelled.remaining = respell c.remaining := by
  rw [remaining, index_respelled]
  exact List.map_drop.symm

theorem peek_respelled (count : Int) : c.respelled.peek count = respell (c.peek count) := by
  unfold peek Text.slice
  rw [index_respelled, index_respelled]
  simp [respelled, respell, List.map_take, List.map_drop]

theorem current?_respelled : c.respelled.current? = c.current?.map respellChar := by
  have hget : ∀ n : Nat, (respell c.source)[n]? = (c.source[n]?).map respellChar :=
    fun n => List.getElem?_map
  simp only [current?, Text.charAt?, respelled, Text.length_respell, hget]
  split
  · rfl
  · split <;> rfl

/-- Respelled characters stand in the lines and columns of the others. -/
theorem move_respelled (count : Int) : c.respelled.move count = (c.move count).respelled := by
  have hpass : ∀ (here : Location) (d : Char), here.pass (respellChar d) = here.pass d :=
    fun here d => Text.respellChar_congr here.pass (by simp [Location.pass])
      (by simp [Location.pass]) d
  unfold move
  rw [peek_respelled, respell, List.foldl_map]
  simp only [hpass]
  rfl

theorem skipAtMost_respelled (bound : Nat) (c : Cursor) :
    skipAtMost bound c.respelled = (skipAtMost bound c).respelled := by
  induction bound generalizing c with
  | zero => rfl
  | succ bound ih =>
      unfold skipAtMost
      rw [current?_respelled]
      cases c.current? with
      | none => rfl
      | some here =>
          have hblank := Text.respellChar_congr isBlank (by decide) (by decide) here
          simp only [Option.map_some, hblank, move_respelled, ih]
          split <;> rfl

theorem skipBlanks_respelled : c.respelled.skipBlanks = c.skipBlanks.respelled := by
  have havailable : c.respelled.available = c.available := by
    simp [available, respelled, Text.length_respell]
  rw [skipBlanks, havailable, skipAtMost_respelled]
  rfl

end Cursor

namespace Session

/-- The session at the same place of the respelled text. -/
def respelled (s : Session) : Session := s.moveTo s.cursor.respelled

variable (s : Session)

theorem rest_respelled : s.respelled.rest = respell s.rest := s.cursor.remaining_respelled

@[simp] theorem past_respelled (n : Nat) : s.respelled.past n = (s.past n).respelled := by
  show s.moveTo (s.cursor.respelled.move n) = s.moveTo (s.cursor.move n).respelled
  rw [Cursor.move_respelled]

@[simp] theorem pastBlanks_respelled : s.respelled.pastBlanks = s.pastBlanks.respelled := by
  show s.moveTo s.cursor.respelled.skipBlanks = s.moveTo s.cursor.skipBlanks.respelled
  rw [Cursor.skipBlanks_respelled]

theorem entered_respelled : s.respelled.entered = s.entered.respelled :=
  s.begin.enter.pastBlanks_respelled

variable {s}

theorem rest_respelled_ne_nil (hrest : s.rest ≠ []) : s.respelled.rest ≠ [] := by
  rwa [rest_respelled, Ne, Text.respell_eq_nil]

theorem rest_respelled_cons {c : Char} {after : Text} (hrest : s.rest = c :: after) :
    s.respelled.rest = respellChar c :: respell after := by
  rw [rest_respelled, hrest, Text.respell_cons]

theorem next_respelled {c : Char} {after : Text} (hnext : s.pastBlanks.rest = c :: after) :
    s.respelled.pastBlanks.rest = respellChar c :: respell after := by
  rw [pastBlanks_respelled, rest_respelled_cons hnext]

end Session

/-! ## 2. Readings without a report -/

namespace Reading

variable {levels : Nat} {t t' : Session}

/-- What is read without a report is read in the respelled text too. -/
def Respells (inner : Reading) : Prop :=
  ∀ {t t' : Session} {g : Grouping Node}, inner t g t' → t.Inside → t.Quiet t' →
    ∃ h, inner t.respelled h t'.respelled ∧ g.chain.Agrees h.chain

/-- The trees of what is read agree. -/
theorem Respells.node (hrespells : (Reads levels).Respells) {g : Grouping Node}
    (hreads : Reads levels t g t') (ht : t.Inside) (hquiet : t.Quiet t') :
    ∃ h, Reads levels t.respelled h t'.respelled ∧
      (g.node t'.source).Agrees (h.node t'.respelled.source) := by
  obtain ⟨h, hreads', hchain⟩ := hrespells hreads ht hquiet
  exact ⟨h, hreads', Grouping.agrees_node hreads.maximal hreads'.maximal hreads.ordered
    hreads'.ordered hchain⟩

/-- Without a report the first character of an operand starts an expression. -/
theorem Primary.exists_lead {inner : Reading} {node : Node} (h : inner.Primary t node t')
    (hquiet : t.Quiet t') : ∃ kind, t.rest.head?.bind Token.Kind.lead? = some kind := by
  cases h with
  | exhausted => exact absurd hquiet (Session.not_quiet_note t .invalidExpression)
  | invalid =>
      have hnote : t.Quiet (t.note .invalidExpression) := ⟨hquiet.abandoned, hquiet.reports⟩
      exact absurd hnote (Session.not_quiet_note t .invalidExpression)
  | number hmatch =>
      have hnumber : Token.Kind.number ∈ Dialect.standardStarts := by decide
      exact ⟨_, Token.Kind.lead?_of_match? hnumber hmatch⟩
  | list hparen =>
      obtain ⟨hrest, -⟩ := hparen
      exact ⟨.leftParen, by rw [hrest]; rfl⟩
  | placeholder hrest => exact ⟨.separator, by rw [hrest]; rfl⟩
  | prefixed hrest hsign _ =>
      have hall : ∀ c ∈ Token.signs, Token.Kind.lead? c = some .prefixOp := by decide
      exact ⟨.prefixOp, by rw [hrest]; exact hall _ hsign⟩
  | @call _ kind _ _ hkind hmatch _ =>
      cases kind with
      | binaryFunction => exact ⟨_, Token.Kind.lead?_of_match? (by decide) hmatch⟩
      | unaryFunction => exact ⟨_, Token.Kind.lead?_of_match? (by decide) hmatch⟩
      | _ => simp [Token.Kind.isFunction] at hkind

end Reading

/-- In front of an expression that is read without a report no star comes about. -/
theorem Reads.head?_ne_star {levels : Nat} {t t' : Session} {g : Grouping Node}
    (h : Reads levels t g t') (ht : t.Inside) (hquiet : t.Quiet t') :
    (respell t.rest).head? ≠ some '*' := by
  cases levels with
  | zero =>
      obtain ⟨-, rfl⟩ := h
      have hbegin : t.begin.Quiet t.begin.abandon := ⟨hquiet.abandoned, hquiet.reports⟩
      have hgiven := Session.Step.not_abandoned (.abandon t.begin) hbegin
      simp at hgiven
  | succ levels =>
      obtain ⟨first, t₁, t₂, hprimary, htail, rfl⟩ := h
      have hstretch : ∀ s g s', Reads levels s g s' → s.Stretch s' := fun _ _ _ => Reads.stretch
      have hentered : t.entered.Quiet t₂ := ⟨hquiet.abandoned, hquiet.reports⟩
      obtain ⟨hquiet₁, -⟩ := hentered.split (hprimary.stretch hstretch)
        (.head (.pastBlanks t₁) (htail.stretch hstretch)) (Session.onward_entered ht).inside
      obtain ⟨kind, hlead⟩ := hprimary.exists_lead hquiet₁
      intro hstar
      rw [Text.head?_respell] at hstar
      obtain ⟨c, hhead, hc⟩ := Option.map_eq_some_iff.1 hstar
      have hboth : Cursor.isBlank c = false ∧ Token.Kind.lead? c = none := by
        have hblank := Text.respellChar_congr Cursor.isBlank (by decide) (by decide) c
        have hnone := Text.respellChar_congr Token.Kind.lead? (by decide) (by decide) c
        rw [hc] at hblank hnone
        exact ⟨hblank ▸ by decide, hnone ▸ by decide⟩
      have hself : t.entered.rest = t.rest := by
        rw [Session.rest_entered ht]
        refine Text.behindBlanks_eq_self fun d hd => ?_
        obtain rfl : c = d := Option.some.inj (hhead.symm.trans hd)
        exact hboth.1
      rw [hself, hhead, Option.bind_some, hboth.2] at hlead
      cases hlead

namespace Reading

section Respells

variable {levels : Nat} {t t' : Session} (hrespells : (Reads levels).Respells)

include hrespells

/-- An item of a list and what is read behind it. -/
theorem item_respelled {g : Grouping Node} {t₁ t₂ : Session} {nodes : List Node}
    {P : List Node → Prop} (hitem : Reads levels t g t₁) (ht : t.Inside) (hquiet : t.Quiet t')
    (h₁ : t₁.Stretch t₂) (h₂ : t₂.Stretch t')
    (ih : t₂.Inside → t₂.Quiet t' → ∃ nodes', P nodes' ∧ Node.AgreeAll nodes nodes') :
    ∃ h nodes', Reads levels t.respelled h t₁.respelled ∧ P nodes' ∧
      Node.AgreeAll (g.node t₁.source :: nodes) (h.node t₁.respelled.source :: nodes') := by
  have hfirst := hitem.stretch
  have hquiet₁ := (hquiet.split hfirst (h₁.trans h₂) ht).1
  have hquiet₂ := (hquiet.split (hfirst.trans h₁) h₂ ht).2
  obtain ⟨h, hitem', hagrees⟩ := hrespells.node hitem ht hquiet₁
  obtain ⟨nodes', hitems', hall⟩ := ih (Session.Stretch.onward (hfirst.trans h₁) ht).inside hquiet₂
  exact ⟨h, nodes', hitem', hitems', .cons hagrees hall⟩

theorem Items.respelled {nodes : List Node} (h : (Reads levels).Items t nodes t') (ht : t.Inside)
    (hquiet : t.Quiet t') : ∃ nodes', (Reads levels).Items t.respelled nodes' t'.respelled ∧
      Node.AgreeAll nodes nodes' := by
  have hstretch : ∀ s g s', Reads levels s g s' → s.Stretch s' := fun _ _ _ => Reads.stretch
  induction h with
  | givenUp _ habandoned => simp [hquiet.abandoned] at habandoned
  | @unclosed t => exact absurd hquiet (Session.not_quiet_note t .invalidInList)
  | @comma t t₁ t' g after nodes hrest hitem hnext hitems ih =>
      have h₁ : t₁.Stretch (t₁.pastBlanks.past 1).pastBlanks :=
        .head (.pastBlanks _) (.head (.past_one hnext) (.single (.pastBlanks _)))
      obtain ⟨h, nodes', hitem', hitems', hall⟩ :=
        item_respelled hrespells hitem ht hquiet h₁ (hitems.stretch hstretch) ih
      refine ⟨_, ?_, hall⟩
      refine .comma (Session.rest_respelled_ne_nil hrest) hitem' (Session.next_respelled hnext) ?_
      simpa using hitems'
  | @closed t t₁ g after hrest hitem hnext =>
      have h₁ : t₁.Stretch (t₁.pastBlanks.past 1) :=
        .head (.pastBlanks _) (.single (.past_one hnext))
      obtain ⟨h, nodes', hitem', rfl, hall⟩ := item_respelled (P := fun nodes' => nodes' = [])
        hrespells hitem ht hquiet h₁ .refl fun _ _ => ⟨[], rfl, Node.agreeAll_nil⟩
      refine ⟨_, ?_, hall⟩
      simpa using Items.closed (Session.rest_respelled_ne_nil hrest) hitem'
        (Session.next_respelled hnext)
  | @junk t t₁ t' g c after nodes _ hitem hnext _ _ hitems _ =>
      have h₁ := (hstretch _ _ _ hitem).tail (.pastBlanks _)
      have h₂ : (t₁.pastBlanks.note .invalidInList).Stretch t' :=
        .head (.past_one hnext) (hitems.stretch hstretch)
      have hquiet₁ := (hquiet.split h₁ (.head (.misplaced hnext) h₂) ht).2
      have hnote := (hquiet₁.split (.single (.misplaced hnext)) h₂
        (Session.Stretch.onward h₁ ht).inside).1
      exact absurd hnote (Session.not_quiet_note t₁.pastBlanks .invalidInList)
  | @ended t t₁ t' g nodes hrest hitem hnext hitems ih =>
      have h₁ : t₁.Stretch t₁.pastBlanks := .single (.pastBlanks _)
      obtain ⟨h, nodes', hitem', hitems', hall⟩ :=
        item_respelled hrespells hitem ht hquiet h₁ (hitems.stretch hstretch) ih
      refine ⟨_, .ended (Session.rest_respelled_ne_nil hrest) hitem' ?_ ?_, hall⟩
      · rw [Session.pastBlanks_respelled, Session.rest_respelled, hnext]
        rfl
      · simpa using hitems'

theorem Paren.respelled {node : Node} (h : (Reads levels).Paren t node t') (ht : t.Inside)
    (hquiet : t.Quiet t') :
    ∃ node', (Reads levels).Paren t.respelled node' t'.respelled ∧ node.Agrees node' := by
  have hstretch : ∀ s g s', Reads levels s g s' → s.Stretch s' := fun _ _ _ => Reads.stretch
  obtain ⟨hrest, hitems⟩ := h
  have h₁ : t.Stretch (t.past 1).pastBlanks := .head (.past_one hrest) (.single (.pastBlanks _))
  have hquiet₁ := (hquiet.split h₁ (hitems.stretch hstretch) ht).2
  obtain ⟨nodes', hitems', hall⟩ :=
    hitems.respelled hrespells (Session.Stretch.onward h₁ ht).inside hquiet₁
  refine ⟨_, .list (Session.rest_respelled_cons hrest) (by simpa using hitems'), ?_⟩
  exact Node.agrees_mk (show Node.Kind.paren ≠ .infixOp by decide) (fun _ => rfl) hall

theorem Arguments.respelled {node : Node} (h : (Reads levels).Arguments t node t') (ht : t.Inside)
    (hquiet : t.Quiet t') :
    ∃ node', (Reads levels).Arguments t.respelled node' t'.respelled ∧ node.Agrees node' := by
  cases h with
  | given hparen =>
      obtain ⟨node', hparen', hagrees⟩ := hparen.respelled hrespells ht hquiet
      exact ⟨node', .given hparen', hagrees⟩
  | missing => exact absurd hquiet (Session.not_quiet_note t .invalidExpression)

theorem Primary.respelled {node : Node} (h : (Reads levels).Primary t node t') (ht : t.Inside)
    (hquiet : t.Quiet t') :
    ∃ node', (Reads levels).Primary t.respelled node' t'.respelled ∧ node.Agrees node' := by
  have hstretch : ∀ s g s', Reads levels s g s' → s.Stretch s' := fun _ _ _ => Reads.stretch
  -- a node that ends with its only child ends at the same place if the child does
  have halong : ∀ {s : Session} {label : Label} {child child' : Node}, label.kind ≠ .infixOp →
      child.Agrees child' → (s.closedAlong label [child] child).Agrees
        (s.respelled.closedAlong label [child'] child') := by
    intro s label child child' hkind hagrees
    refine Node.agrees_mk hkind (fun hsame => ?_) (Node.agreeAll_singleton hagrees)
    have hspan : child'.span = child.span := by
      rw [← child'.span_unspelled, ← child.span_unspelled, (List.cons.inj hsame).1]
    rw [hspan]
    rfl
  cases h with
  | exhausted => exact absurd hquiet (Session.not_quiet_note t .invalidExpression)
  | invalid =>
      have hnote : t.Quiet (t.note .invalidExpression) := ⟨hquiet.abandoned, hquiet.reports⟩
      exact absurd hnote (Session.not_quiet_note t .invalidExpression)
  | number hmatch =>
      have hmatch' := Numeral.lexeme?_respell hmatch
      rw [← Session.rest_respelled] at hmatch'
      refine ⟨_, by simpa using Primary.number hmatch', ?_⟩
      exact Node.agrees_mk (show Node.Kind.number ≠ .infixOp by decide) (fun _ => rfl)
        Node.agreeAll_nil
  | list hparen =>
      obtain ⟨node', hparen', hagrees⟩ := hparen.respelled hrespells ht hquiet
      exact ⟨node', .list hparen', hagrees⟩
  | placeholder hrest =>
      refine ⟨_, .placeholder (Session.rest_respelled_cons hrest), ?_⟩
      exact Node.agrees_mk (show Node.Kind.expression ≠ .infixOp by decide) (fun _ => rfl)
        Node.agreeAll_nil
  | @prefixed _ sign after g hrest hsign hoperand =>
      have h₁ : t.Stretch (t.past 1) := .single (.past_one hrest)
      have hquiet₁ := (hquiet.split h₁ hoperand.stretch ht).2
      obtain ⟨h, hoperand', hagrees⟩ :=
        hrespells.node hoperand (Session.Stretch.onward h₁ ht).inside hquiet₁
      have hself : ∀ sign ∈ Token.signs, respellChar sign = sign := by decide
      have hrest' := Session.rest_respelled_cons hrest
      rw [hself sign hsign] at hrest'
      refine ⟨_, .prefixed hrest' hsign (by simpa using hoperand'), ?_⟩
      exact halong (show Node.Kind.prefixOp ≠ .infixOp by decide) hagrees
  | @call _ kind x node hkind hmatch hgiven =>
      have h₁ : t.Stretch (t.past x.length).pastBlanks :=
        .head (.past_lexeme (Token.Kind.prefix_of_match? hmatch)) (.single (.pastBlanks _))
      have hquiet₁ := (hquiet.split h₁ (hgiven.stretch hstretch) ht).2
      obtain ⟨node', hgiven', hagrees⟩ :=
        hgiven.respelled hrespells (Session.Stretch.onward h₁ ht).inside hquiet₁
      have hmatch' := Token.Kind.match?_respell hkind hmatch
      rw [← Session.rest_respelled] at hmatch'
      refine ⟨_, .call hkind hmatch' (by simpa using hgiven'), ?_⟩
      exact halong (Rule.functionKind_ne_infixOp _) hagrees

theorem Tail.respelled {first first' : Node} {g : Grouping Node}
    (h : (Reads levels).Tail t first g t') (hfirst : first.Agrees first') (ht : t.Inside)
    (hquiet : t.Quiet t') : ∃ h, (Reads levels).Tail t.respelled first' h t'.respelled ∧
      g.chain.Agrees h.chain := by
  cases h with
  | stop hnone =>
      have hnone' := Link.next?_respell_eq_none hnone
      rw [← Session.rest_respelled] at hnone'
      exact ⟨_, .stop hnone', Chain.agrees_single hfirst⟩
  | @link _ _ link g hnext hright =>
      have h₁ : t.Stretch (t.past link.symbol.length) :=
        .single (.past_lexeme (Link.symbol_prefix_of_next? hnext))
      have hinside := (Session.Stretch.onward h₁ ht).inside
      have hquiet₁ := (hquiet.split h₁ hright.stretch ht).2
      obtain ⟨h, hright', hchain⟩ := hrespells hright hinside hquiet₁
      -- behind the symbol an operand starts, so no star is added to it
      have hle := (Link.symbol_prefix_of_next? hnext).length_le
      obtain ⟨after, hafter⟩ := Link.symbol_prefix_of_next? hnext
      have hrest : (t.past link.symbol.length).rest = after := by
        rw [Session.rest_past ht hle, ← hafter, List.drop_left]
      have hnext' := link.next?_respell (hrest ▸ hright.head?_ne_star hinside hquiet₁)
      rw [hafter, ← Session.rest_respelled] at hnext'
      have hlength : link.respelled.symbol.length = link.symbol.length := Text.length_respell _
      refine ⟨_, .link hnext' (by simpa [hlength] using hright'), ?_⟩
      rw [Grouping.chain_settle, Grouping.chain_settle]
      exact hchain.cons hfirst link

end Respells

end Reading

/-- **What is read without a report is read in the respelled text too.** -/
theorem Reads.respells (levels : Nat) : (Reads levels).Respells := by
  induction levels with
  | zero =>
      rintro t t' g ⟨-, rfl⟩ - hquiet
      have hbegin : t.begin.Quiet t.begin.abandon := ⟨hquiet.abandoned, hquiet.reports⟩
      have hgiven := Session.Step.not_abandoned (.abandon t.begin) hbegin
      simp at hgiven
  | succ levels ih =>
      rintro t t' g ⟨first, t₁, t₂, hprimary, htail, rfl⟩ ht hquiet
      have hstretch : ∀ s g s', Reads levels s g s' → s.Stretch s' := fun _ _ _ => Reads.stretch
      have hentered : t.entered.Quiet t₂ := ⟨hquiet.abandoned, hquiet.reports⟩
      have hinside := (Session.onward_entered ht).inside
      have h₁ : t.entered.Stretch t₁.pastBlanks := (hprimary.stretch hstretch).tail (.pastBlanks _)
      obtain ⟨hquiet₁, hquiet₂⟩ := hentered.split h₁ (htail.stretch hstretch) hinside
      obtain ⟨first', hprimary', hfirst⟩ :=
        hprimary.respelled ih hinside ⟨hquiet₁.abandoned, hquiet₁.reports⟩
      obtain ⟨h, htail', hchain⟩ :=
        htail.respelled ih hfirst (Session.Stretch.onward h₁ hinside).inside hquiet₂
      refine ⟨h, ⟨first', t₁.respelled, t₂.respelled, ?_, ?_, rfl⟩, hchain⟩
      · rwa [Session.entered_respelled]
      · rwa [Session.pastBlanks_respelled]

/-! ## 3. Whole texts -/

/-- **Respelling a text without a report**: the respelled text has none either, and its tree is the
    same without spellings exactly where no operator has the tighter spelling of its operation to
    its right. -/
theorem parse_respelled (limit : NestingLimit) (source : Text) {p : Parse}
    (hparse : parse ⟨limit, Dialect.standard⟩ source = .ok p) (hsilent : p.hasErrors = false) :
    ∃ q, parse ⟨limit, Dialect.standard⟩ (respell source) = .ok q ∧ q.hasErrors = false ∧
      (q.root.unspelled = p.root.unspelled ↔ ∀ n ∈ p.root.walk, ¬ n.Mixed) := by
  obtain ⟨g, s', hreads, hresult⟩ := exists_parse limit source
  obtain rfl := Except.ok.inj (hparse.symm.trans hresult)
  have hreports : s'.finished.reports = [] := by
    simpa [Parse.hasErrors, Parse.reports] using hsilent
  have hrest : s'.pastBlanks.rest = [] := Session.rest_of_not_trailing (by simp [hreports])
  have hfinished : s'.finished = s'.pastBlanks := if_pos hrest
  rw [hfinished] at hreports
  have hquiet : (Session.start source).Quiet s' := ⟨rfl, hreports⟩
  obtain ⟨h, hreads', hagrees⟩ :=
    Reading.Respells.node (Reads.respells limit.levels) hreads (Session.inside_start source) hquiet
  refine ⟨_, parse_eq hreads', ?_, hagrees.trans Node.forall_mem_walk.symm⟩
  have hrest' : s'.respelled.pastBlanks.rest = [] := by
    rw [Session.pastBlanks_respelled, Session.rest_respelled, hrest]
    rfl
  have hfinished' : s'.respelled.finished = s'.respelled.pastBlanks := if_pos hrest'
  have hnone : s'.respelled.finished.reports = [] := by
    rw [hfinished']
    exact hquiet.reports
  simp [Parse.hasErrors, Parse.reports, hnone]

/-- Two spellings of the division, the tighter one first. -/
theorem parse_respelled_alike : ∃ p q, parse Settings.standard "8÷4/2".toList = .ok p ∧
    p.hasErrors = false ∧ parse Settings.standard "8/4/2".toList = .ok q ∧ q.hasErrors = false ∧
      q.root.unspelled = p.root.unspelled := by
  obtain ⟨g, s', -, hparse⟩ := exists_parse NestingLimit.standard "8÷4/2".toList
  change parse Settings.standard _ = _ at hparse
  have hplain : ((parse Settings.standard "8÷4/2".toList).toOption.map fun p =>
      (p.hasErrors, p.root.walk.all fun n => decide (¬ n.Mixed))) = some (false, true) := by
    decide +kernel
  rw [hparse] at hplain
  obtain ⟨hsilent, hnone⟩ := Prod.mk.inj (Option.some.inj hplain)
  obtain ⟨q, hq, hsilent', hsame⟩ := parse_respelled NestingLimit.standard _ hparse hsilent
  exact ⟨_, q, hparse, hsilent, hq, hsilent', hsame.2 (by simpa using hnone)⟩

/-- Two spellings of the division, the tighter one last: written in one way they are grouped
    differently. -/
theorem parse_respelled_differs : ∃ p q, parse Settings.standard "8/4÷2".toList = .ok p ∧
    p.hasErrors = false ∧ parse Settings.standard (respell "8/4÷2".toList) = .ok q ∧
      p.root.children.map Node.kind = [.number, .infixOp] ∧
      q.root.children.map Node.kind = [.infixOp, .number] ∧
      q.root.unspelled ≠ p.root.unspelled := by
  have hrun : ∀ source : Text, ∃ p, parse Settings.standard source = .ok p := fun source =>
    let ⟨_, _, _, hparse⟩ := exists_parse NestingLimit.standard source
    ⟨_, hparse⟩
  obtain ⟨p, hp⟩ := hrun "8/4÷2".toList
  obtain ⟨q, hq⟩ := hrun (respell "8/4÷2".toList)
  have hplain : ((parse Settings.standard "8/4÷2".toList).toOption.map fun p =>
      (p.hasErrors, p.root.children.map Node.kind)) = some (false, [.number, .infixOp]) := by
    decide +kernel
  have hrespelled : ((parse Settings.standard (respell "8/4÷2".toList)).toOption.map fun q =>
      q.root.children.map Node.kind) = some [.infixOp, .number] := by decide +kernel
  rw [hp] at hplain
  rw [hq] at hrespelled
  obtain ⟨hsilent, hkinds⟩ := Prod.mk.inj (Option.some.inj hplain)
  have hkinds' := Option.some.inj hrespelled
  refine ⟨p, q, hp, hsilent, hq, hkinds, hkinds', fun hsame => ?_⟩
  have hchildren : ∀ n : Node, n.unspelled.children.map Node.kind = n.children.map Node.kind := by
    rintro ⟨label, children⟩
    simp [Node.kind_unspelled, Function.comp_def]
  have hboth := congrArg (fun n => n.children.map Node.kind) hsame
  simp only [hchildren, hkinds, hkinds'] at hboth
  cases hboth

end Reckoner
