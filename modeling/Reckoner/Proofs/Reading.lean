import Reckoner.Parse
import Reckoner.Proofs.Joined
import Reckoner.Proofs.Position

/-!
# Readings

What the rules of the grammar do inside a text, as relations between the session before, what is
read and the session after. The relations for the parts of an expression take the relation for the
expressions inside it as an argument, like the rules do.

* `Reading.Items`, `Reading.Paren`, `Reading.Arguments`, `Reading.Primary`, `Reading.Tail` -- the
  parts of an expression, one case per way through the rule;
* `Reads` -- an expression, of which some levels may still be opened; the result is its grouping;
* `Rule.Follows` -- a rule does what a relation says: on every session inside a text the relation
  has a result, and the rule gives that result and no fault;
* `expression_follows` -- the rule for expressions follows `Reads`, `exists_parse` -- so reading a
  text always gives a tree.
-/

namespace Reckoner

/-! ## 1. The relations -/

/-- A relation between a session, the grouping read from there and the session behind it. -/
abbrev Reading := Session → Grouping Node → Session → Prop

/-- The name of the operation that a sign stands for. -/
def Token.signName (sign : Char) : Text := (Operator.names.lookup [sign]).getD []

theorem Token.name?_sign {sign : Char} (h : sign ∈ Token.signs) :
    Dialect.standard.name? [sign] = some (Token.signName sign) := by
  have hall : ∀ sign ∈ Token.signs, Dialect.standard.name? [sign] =
      some ((Operator.names.lookup [sign]).getD []) := by decide
  exact hall sign h

namespace Session

/-- The session once its text is given up: everything is passed. -/
def abandon (s : Session) : Session :=
  ((if s.abandoned then s else s.note .nestedTooDeeply).giveUp).past s.rest.length

end Session

namespace Reading

variable (inner : Reading)

/-- The items of a list and its end. -/
inductive Items : Session → List Node → Session → Prop where
  /-- The text has ended because it was given up. -/
  | givenUp {s : Session} (hrest : s.rest = []) (habandoned : s.abandoned = true) : Items s [] s
  /-- The text ends inside the list. -/
  | unclosed {s : Session} (hrest : s.rest = []) (habandoned : s.abandoned = false) :
      Items s [] (s.note .invalidInList)
  /-- An item and a comma. -/
  | comma {s s₁ s' : Session} {g : Grouping Node} {after : Text} {items : List Node}
      (hrest : s.rest ≠ []) (hitem : inner s g s₁) (hnext : s₁.pastBlanks.rest = ',' :: after)
      (hitems : Items (s₁.pastBlanks.past 1).pastBlanks items s') :
      Items s (g.node s₁.source :: items) s'
  /-- The last item and the closing parenthesis. -/
  | closed {s s₁ : Session} {g : Grouping Node} {after : Text} (hrest : s.rest ≠ [])
      (hitem : inner s g s₁) (hnext : s₁.pastBlanks.rest = ')' :: after) :
      Items s [g.node s₁.source] (s₁.pastBlanks.past 1)
  /-- An item and something else, which separates like a comma. -/
  | junk {s s₁ s' : Session} {g : Grouping Node} {c : Char} {after : Text} {items : List Node}
      (hrest : s.rest ≠ []) (hitem : inner s g s₁) (hnext : s₁.pastBlanks.rest = c :: after)
      (hcomma : c ≠ ',') (hclose : c ≠ ')')
      (hitems : Items ((s₁.pastBlanks.note .invalidInList).past 1) items s') :
      Items s (g.node s₁.source :: items) s'
  /-- The text ends behind an item. -/
  | ended {s s₁ s' : Session} {g : Grouping Node} {items : List Node} (hrest : s.rest ≠ [])
      (hitem : inner s g s₁) (hnext : s₁.pastBlanks.rest = [])
      (hitems : Items s₁.pastBlanks items s') :
      Items s (g.node s₁.source :: items) s'

/-- A list in parentheses. -/
inductive Paren : Session → Node → Session → Prop where
  | list {s s' : Session} {after : Text} {children : List Node} (hrest : s.rest = '(' :: after)
      (hitems : Items inner (s.past 1).pastBlanks children s') :
      Paren s (s'.closed (s.opened .paren) children) s'

/-- What stands behind the name of a function. -/
inductive Arguments : Session → Node → Session → Prop where
  | given {s s' : Session} {node : Node} (hparen : Paren inner s node s') : Arguments s node s'
  | missing {s : Session} (hrest : s.rest.head? ≠ some '(') :
      Arguments s ((s.note .invalidExpression).closed (s.opened .expression) [])
        (s.note .invalidExpression)

/-- An expression up to the first infix operator behind it, read from its first character. -/
inductive Primary : Session → Node → Session → Prop where
  /-- Nothing is left. -/
  | exhausted {s : Session} (hrest : s.rest = []) :
      Primary s ((s.note .invalidExpression).closed (s.opened .expression) [])
        (s.note .invalidExpression)
  /-- A character that starts no expression. -/
  | invalid {s : Session} (hrest : s.rest ≠ [])
      (hnone : ∀ kind ∈ Dialect.standardStarts, kind.match? s.rest = none) :
      Primary s (((s.note .invalidExpression).past 1).closed (s.opened .expression) [])
        ((s.note .invalidExpression).past 1)
  | number {s : Session} {x : Text} (hmatch : Numeral.lexeme? s.rest = some x) :
      Primary s
        ((s.past x.length).closed
          { s.opened .number with number? := some (Number.ofLexeme x) } [])
        (s.past x.length)
  | list {s s' : Session} {node : Node} (hparen : Paren inner s node s') : Primary s node s'
  /-- Nothing in front of a comma. -/
  | placeholder {s : Session} {after : Text} (hrest : s.rest = ',' :: after) :
      Primary s (s.closed (s.opened .expression) []) s
  | prefixed {s s' : Session} {sign : Char} {after : Text} {g : Grouping Node}
      (hrest : s.rest = sign :: after) (hsign : sign ∈ Token.signs)
      (hoperand : inner (s.past 1) g s') :
      Primary s
        (s'.closedAlong
          { s.opened .prefixOp with
            symbol? := some [sign], operator? := some (Token.signName sign) }
          [g.node s'.source] (g.node s'.source))
        s'
  | call {s s' : Session} {kind : Token.Kind} {x : Text} {node : Node}
      (hkind : kind.isFunction = true) (hmatch : kind.match? s.rest = some x)
      (hgiven : Arguments inner (s.past x.length).pastBlanks node s') :
      Primary s
        (s'.closedAlong
          { s.opened (Rule.functionKind ⟨kind, x, s.location⟩) with operator? := some x }
          [node] node)
        s'

/-- What follows an operand, read from the first character behind the blanks. -/
inductive Tail : Session → Node → Grouping Node → Session → Prop where
  | stop {s : Session} {first : Node} (hnone : Link.next? s.rest = none) :
      Tail s first (.operand first) s
  | link {s s' : Session} {first : Node} {link : Link} {g : Grouping Node}
      (hnext : Link.next? s.rest = some link) (hright : inner (s.past link.symbol.length) g s') :
      Tail s first (.settle link (.operand first) g) s'

end Reading

/-- An expression, of which some levels may still be opened one inside the other. -/
def Reads : Nat → Reading
  | 0, s, g, s' =>
      g = .operand (s.begin.abandon.closed (s.opened .expression) []) ∧ s' = s.begin.abandon
  | levels + 1, s, g, s' =>
      ∃ first s₁ s₂, Reading.Primary (Reads levels) s.entered first s₁ ∧
        Reading.Tail (Reads levels) s₁.pastBlanks first g s₂ ∧ s' = s₂.leave

/-! ## 2. What readings keep -/

namespace Session

theorem exists_succ_of_rest {s : Session} (hrest : s.rest ≠ []) {bound : Nat}
    (hbound : s.rest.length ≤ bound) : ∃ less, bound = less + 1 := by
  have hpos := List.length_pos_iff.2 hrest
  exact Nat.exists_eq_succ_of_ne_zero (by omega)

theorem onward_abandon {s : Session} (h : s.Inside) : s.Onward s.abandon := by
  unfold abandon
  split
  · have h₁ := onward_giveUp h
    exact h₁.trans (onward_past h₁.inside (Nat.le_refl _))
  · have h₁ := (onward_note h .nestedTooDeeply).trans (onward_giveUp h)
    exact h₁.trans (onward_past h₁.inside (Nat.le_refl _))

end Session

theorem Token.Kind.prefix_of_match? {kind : Token.Kind} {t x : Text}
    (h : kind.match? t = some x) : x <+: t := by
  have hone : ∀ {set : Text}, Token.oneOf set t = some x → x <+: t := by
    intro set ho
    obtain ⟨c, after, rfl, -, rfl⟩ := Token.oneOf_eq_some.1 ho
    exact ⟨after, rfl⟩
  cases kind with
  | number => exact (Numeral.isNumeral_of_lexeme? h).2
  | leftParen => exact hone h
  | separator => exact hone h
  | prefixOp => exact hone h
  | infixOp =>
      have hlink : (Link.next? t).map Link.symbol = some x := (Link.map_symbol_next? t).trans h
      obtain ⟨link, hnext, rfl⟩ := Option.map_eq_some_iff.1 hlink
      exact Link.symbol_prefix_of_next? hnext
  | postfixOp => exact hone h
  | binaryFunction => exact (Keyword.mem_of_match? h).2.1
  | unaryFunction => exact (Keyword.mem_of_match? h).2.1

theorem Token.Kind.mem_keyword_of_match? {kind : Token.Kind} {t x : Text}
    (hkind : kind.isFunction = true) (h : kind.match? t = some x) : x ∈ Keyword.all := by
  cases kind with
  | binaryFunction => exact List.mem_append_left _ (Keyword.mem_of_match? h).1
  | unaryFunction => exact List.mem_append_right _ (Keyword.mem_of_match? h).1
  | _ => simp [Token.Kind.isFunction] at hkind

theorem Rule.functionKind_ne_infixOp (token : Token) : functionKind token ≠ .infixOp := by
  unfold functionKind
  split <;> simp

theorem Rule.functionKind_ne (token : Token) :
    functionKind token ≠ .expression ∧ functionKind token ≠ .prefixOp := by
  unfold functionKind
  split <;> simp

namespace Reading

variable {inner : Reading} {s s' : Session}

/-- At the end of a text the items of a list end at once. -/
theorem Items.eq_nil_of_rest_nil {items : List Node} (h : inner.Items s items s')
    (hrest : s.rest = []) :
    items = [] ∧ s' = if s.abandoned then s else s.note .invalidInList := by
  cases h with
  | givenUp _ habandoned => exact ⟨rfl, (if_pos habandoned).symm⟩
  | unclosed _ habandoned => exact ⟨rfl, (if_neg (by simp [habandoned])).symm⟩
  | comma hne => exact absurd hrest hne
  | closed hne => exact absurd hrest hne
  | junk hne => exact absurd hrest hne
  | ended hne => exact absurd hrest hne

section Onward

variable (hinner : ∀ s g s', inner s g s' → s.Inside → s.Onward s')

include hinner

theorem Items.onward {items : List Node} (h : inner.Items s items s') (hs : s.Inside) :
    s.Onward s' := by
  induction h with
  | givenUp => exact Session.onward_refl hs
  | unclosed => exact Session.onward_note hs _
  | comma _ hitem hnext _ ih =>
      have h₁ := hinner _ _ _ hitem hs
      have h₂ := h₁.pastBlanks
      have h₃ := h₂.past_one (by simp [hnext])
      have h₄ := h₃.pastBlanks
      exact h₄.trans (ih h₄.inside)
  | closed _ hitem hnext =>
      have h₁ := hinner _ _ _ hitem hs
      have h₂ := h₁.pastBlanks
      exact h₂.past_one (by simp [hnext])
  | junk _ hitem hnext _ _ _ ih =>
      have h₁ := hinner _ _ _ hitem hs
      have h₂ := h₁.pastBlanks
      have h₃ := h₂.note .invalidInList
      have h₄ := h₃.past_one (by simp [hnext])
      exact h₄.trans (ih h₄.inside)
  | ended _ hitem _ _ ih =>
      have h₁ := hinner _ _ _ hitem hs
      have h₂ := h₁.pastBlanks
      exact h₂.trans (ih h₂.inside)

theorem Paren.onward {node : Node} (h : inner.Paren s node s') (hs : s.Inside) : s.Onward s' := by
  obtain ⟨hrest, hitems⟩ := h
  have h₁ := Session.onward_past_one hs (by simp [hrest])
  have h₂ := h₁.pastBlanks
  exact h₂.trans (hitems.onward hinner h₂.inside)

theorem Arguments.onward {node : Node} (h : inner.Arguments s node s') (hs : s.Inside) :
    s.Onward s' := by
  cases h with
  | given hparen => exact hparen.onward hinner hs
  | missing => exact Session.onward_note hs _

theorem Primary.onward {node : Node} (h : inner.Primary s node s') (hs : s.Inside) :
    s.Onward s' := by
  cases h with
  | exhausted => exact Session.onward_note hs _
  | invalid hrest => exact (Session.onward_note hs _).trans (Session.onward_past_one hs hrest)
  | number hmatch => exact Session.onward_past_prefix hs (Numeral.isNumeral_of_lexeme? hmatch).2
  | list hparen => exact hparen.onward hinner hs
  | placeholder => exact Session.onward_refl hs
  | prefixed hrest _ hoperand =>
      have h₁ := Session.onward_past_one hs (by simp [hrest])
      exact h₁.trans (hinner _ _ _ hoperand h₁.inside)
  | call _ hmatch hgiven =>
      have h₁ := Session.onward_past_prefix hs (Token.Kind.prefix_of_match? hmatch)
      have h₂ := h₁.pastBlanks
      exact h₂.trans (hgiven.onward hinner h₂.inside)

theorem Tail.onward {first : Node} {g : Grouping Node} (h : inner.Tail s first g s')
    (hs : s.Inside) : s.Onward s' := by
  cases h with
  | stop => exact Session.onward_refl hs
  | link hnext hright =>
      have h₁ := Session.onward_past_prefix hs (Link.symbol_prefix_of_next? hnext)
      exact h₁.trans (hinner _ _ _ hright h₁.inside)

end Onward

/-- An operand is no infix node. -/
theorem Primary.kind_ne_infixOp {node : Node} (h : inner.Primary s node s') :
    node.kind ≠ .infixOp := by
  have hclosed : ∀ (s : Session) (label : Label) (children : List Node),
      (s.closed label children).kind = label.kind := fun _ _ _ => rfl
  have halong : ∀ (s : Session) (label : Label) (children : List Node) (last : Node),
      (s.closedAlong label children last).kind = label.kind := fun _ _ _ _ => rfl
  have hopened : ∀ (s : Session) (kind : Node.Kind), (s.opened kind).kind = kind := fun _ _ => rfl
  cases h with
  | exhausted => simp [hclosed, hopened]
  | invalid => simp [hclosed, hopened]
  | number => simp [hclosed, hopened]
  | list hparen =>
      obtain ⟨-, -⟩ := hparen
      simp [hclosed, hopened]
  | placeholder => simp [hclosed, hopened]
  | prefixed => simp [halong, hopened]
  | call =>
      rw [halong]
      exact Rule.functionKind_ne_infixOp _

theorem Tail.maximal (hinner : ∀ s g s', inner s g s' → g.Maximal) {first : Node}
    {g : Grouping Node} (hfirst : first.kind ≠ .infixOp) (h : inner.Tail s first g s') :
    g.Maximal := by
  cases h with
  | stop => exact Grouping.maximal_operand.2 hfirst
  | link _ hright => exact Grouping.maximal_settle hfirst (hinner _ _ _ hright)

end Reading

theorem Reads.onward {levels : Nat} {s s' : Session} {g : Grouping Node}
    (h : Reads levels s g s') (hs : s.Inside) : s.Onward s' := by
  induction levels generalizing s g s' with
  | zero =>
      obtain ⟨-, rfl⟩ := h
      have h₁ := Session.onward_begin hs
      exact h₁.trans (Session.onward_abandon h₁.inside)
  | succ levels ih =>
      obtain ⟨first, s₁, s₂, hprimary, htail, rfl⟩ := h
      have hinner : ∀ s g s', Reads levels s g s' → s.Inside → s.Onward s' := fun _ _ _ => ih
      have h₁ := Session.onward_entered hs
      have h₂ := (h₁.trans (hprimary.onward hinner h₁.inside)).pastBlanks
      have h₃ := h₂.trans (htail.onward hinner h₂.inside)
      exact h₃.trans (Session.onward_leave h₃.inside)

theorem Reads.maximal {levels : Nat} {s s' : Session} {g : Grouping Node}
    (h : Reads levels s g s') : g.Maximal := by
  induction levels generalizing s g s' with
  | zero =>
      obtain ⟨rfl, -⟩ := h
      exact Grouping.maximal_operand.2 (by simp [Session.closed, Node.kind, Label.refresh,
        Label.endAlong, Session.opened, Label.plain])
  | succ levels ih =>
      obtain ⟨first, s₁, s₂, hprimary, htail, rfl⟩ := h
      exact htail.maximal (fun _ _ _ => ih) hprimary.kind_ne_infixOp

/-! ## 3. Rules that follow a relation -/

/-- A rule does what a relation says, wherever it starts in a text. -/
structure Rule.Follows (rule : Rule Node) (inner : Reading) : Prop where
  /-- There is always a way to read on. -/
  total : ∀ s, s.Inside → ∃ g s', inner s g s'
  onward : ∀ s g s', inner s g s' → s.Inside → s.Onward s'
  maximal : ∀ s g s', inner s g s' → g.Maximal
  run : ∀ s g s', inner s g s' → s.Inside → rule.runOn s = (.ok (g.node s'.source), s')

namespace Rule

variable {s s' : Session}

theorem runOn_pass_one (hs : s.Inside) (hrest : s.rest ≠ []) :
    (pass 1).runOn s = (.ok (), s.past 1) :=
  runOn_pass_of_le hs (n := 1) (List.length_pos_iff.2 hrest)

theorem runOn_pass_prefix (hs : s.Inside) {x : Text} (hx : x <+: s.rest) :
    (pass x.length).runOn s = (.ok (), s.past x.length) :=
  runOn_pass_of_le hs hx.length_le

theorem runOn_abandon (hs : s.Inside) :
    abandon.runOn s = (.ok (s.abandon.closed (s.opened .expression) []), s.abandon) := by
  have hpass : ∀ t : Session, t.Inside →
      (pass t.cursor.remaining.length).runOn t = (.ok (), t.past t.rest.length) :=
    fun t ht => runOn_pass_of_le ht (Nat.le_refl _)
  unfold abandon Session.abandon
  cases habandoned : s.abandoned with
  | true =>
      simp [runOn_bind, habandoned, hpass s.giveUp hs]
  | false =>
      simp [runOn_bind, habandoned, hpass (s.note .nestedTooDeeply).giveUp hs]

theorem runOn_unclosed :
    unclosed.runOn s = (.ok [], if s.abandoned then s else s.note .invalidInList) := by
  unfold unclosed
  cases habandoned : s.abandoned <;> simp only [runOn_bind, runOn_get, habandoned] <;> rfl

/-- Where nothing is left a list ends, whatever the bound. -/
theorem runOn_items_nil (rule : Rule Node) (hs : s.Inside) (hrest : s.rest = []) (bound : Nat) :
    (items rule bound).runOn s = (.ok [], if s.abandoned then s else s.note .invalidInList) := by
  cases bound with
  | zero => exact runOn_unclosed
  | succ bound =>
      simp only [items, runOn_bind, runOn_atEnd hs, hrest, decide_true, if_true]
      exact runOn_unclosed

theorem runOn_invalid_nil (hs : s.Inside) (hrest : s.rest = []) :
    invalid.runOn s = (.ok ((s.note .invalidExpression).closed (s.opened .expression) []),
      s.note .invalidExpression) := by
  simp [invalid, runOn_bind, runOn_atEnd (s := s.note .invalidExpression) hs, hrest]

theorem runOn_invalid_of_ne (hs : s.Inside) (hrest : s.rest ≠ []) :
    invalid.runOn s = (.ok (((s.note .invalidExpression).past 1).closed (s.opened .expression) []),
      (s.note .invalidExpression).past 1) := by
  simp [invalid, runOn_bind, runOn_atEnd (s := s.note .invalidExpression) hs, hrest,
    runOn_pass_one (s := s.note .invalidExpression) hs hrest]

theorem runOn_number (hs : s.Inside) {x : Text} (hmatch : Numeral.lexeme? s.rest = some x) :
    (number ⟨.number, x, s.location⟩).runOn s =
      (.ok ((s.past x.length).closed { s.opened .number with number? := some (Number.ofLexeme x) }
        []), s.past x.length) := by
  simp [number, runOn_bind, runOn_pass_prefix hs (Numeral.isNumeral_of_lexeme? hmatch).2]

section Parts

variable {inner : Reading} {rule : Rule Node} (hrule : rule.Follows inner)

include hrule

theorem runOn_items {nodes : List Node} (h : inner.Items s nodes s') (hs : s.Inside) (bound : Nat)
    (hbound : s.rest.length ≤ bound) : (items rule bound).runOn s = (.ok nodes, s') := by
  induction h generalizing bound with
  | givenUp hrest habandoned => rw [runOn_items_nil rule hs hrest, if_pos habandoned]
  | unclosed hrest habandoned =>
      rw [runOn_items_nil rule hs hrest, if_neg (by simp [habandoned])]
  | @comma s s₁ s' g after nodes hrest hitem hnext _ ih =>
      obtain ⟨bound, rfl⟩ := Session.exists_succ_of_rest hrest hbound
      have h₁ := hrule.onward _ _ _ hitem hs
      have h₂ := h₁.pastBlanks
      have hne : s₁.pastBlanks.rest ≠ [] := by simp [hnext]
      have h₃ := Session.onward_past_one h₂.inside hne
      have h₄ := Session.onward_pastBlanks h₃.inside
      have hlater := ih h₄.inside bound (by
        have := h₂.length_rest_past_lt hne
        have := h₄.length_rest_le
        omega)
      simp [items, runOn_bind, runOn_atEnd hs, hrest, hrule.run _ _ _ hitem hs,
        runOn_peek h₂.inside, runOn_pass_one h₂.inside hne, hnext, hlater, Except.map]
  | @closed s s₁ g after hrest hitem hnext =>
      obtain ⟨bound, rfl⟩ := Session.exists_succ_of_rest hrest hbound
      have h₁ := hrule.onward _ _ _ hitem hs
      have h₂ := h₁.pastBlanks
      have hne : s₁.pastBlanks.rest ≠ [] := by simp [hnext]
      simp [items, runOn_bind, runOn_atEnd hs, hrest, hrule.run _ _ _ hitem hs,
        runOn_peek h₂.inside, runOn_pass_one h₂.inside hne, hnext, Except.map]
  | @junk s s₁ s' g c after nodes hrest hitem hnext hcomma hclose _ ih =>
      obtain ⟨bound, rfl⟩ := Session.exists_succ_of_rest hrest hbound
      have h₁ := hrule.onward _ _ _ hitem hs
      have h₂ := h₁.pastBlanks
      have h₃ := h₂.note .invalidInList
      have hne : (s₁.pastBlanks.note .invalidInList).rest ≠ [] := by simp [hnext]
      have hlater := ih (Session.onward_past_one h₃.inside hne).inside bound (by
        have := h₃.length_rest_past_lt hne
        omega)
      simp [items, runOn_bind, runOn_atEnd hs, hrest, hrule.run _ _ _ hitem hs,
        runOn_peek h₂.inside, runOn_pass_one h₃.inside hne, hnext, hcomma, hclose, hlater,
        Except.map]
  | @ended s s₁ s' g nodes hrest hitem hnext _ ih =>
      obtain ⟨bound, rfl⟩ := Session.exists_succ_of_rest hrest hbound
      have h₁ := hrule.onward _ _ _ hitem hs
      have h₂ := h₁.pastBlanks
      have hlater := ih h₂.inside bound (by simp [hnext])
      simp [items, runOn_bind, runOn_atEnd hs, hrest, hrule.run _ _ _ hitem hs,
        runOn_peek h₂.inside, hnext, hlater, Except.map]

theorem runOn_list {node : Node} (h : inner.Paren s node s') (hs : s.Inside) :
    (list rule).runOn s = (.ok node, s') := by
  cases h with
  | list hrest hitems =>
      have hne : s.rest ≠ [] := by simp [hrest]
      have h₁ := Session.onward_past_one hs hne
      have h₂ := Session.onward_pastBlanks h₁.inside
      simp [list, runOn_bind, runOn_peek hs, hrest, runOn_pass_one hs hne, h₂.inside.available_eq,
        runOn_items hrule hitems h₂.inside _ (Nat.le_refl _)]

theorem runOn_arguments {node : Node} (h : inner.Arguments s node s') (hs : s.Inside) :
    (arguments rule).runOn s = (.ok node, s') := by
  cases h with
  | given hparen =>
      have hpeek : s.rest.take 1 = ['('] := by
        cases hparen with
        | list hrest => simp [hrest]
      simp [arguments, runOn_bind, runOn_peek hs, hpeek, runOn_list hrule hparen hs]
  | missing hrest =>
      have hpeek : s.rest.take 1 ≠ ['('] := by
        rwa [Ne, List.take_one, Option.toList_eq_singleton_iff]
      simp [arguments, runOn_bind, runOn_peek hs, hpeek, placeholder]
      rfl

theorem runOn_primary {node : Node} (h : inner.Primary s.pastBlanks node s') (hs : s.Inside) :
    (primary Dialect.standard rule).runOn s = (.ok node, s') := by
  have hin := (Session.onward_pastBlanks hs).inside
  simp only [primary, runOn_bind, runOn_skipBlanks, runOn_get]
  have hclassify : ∀ (kind : Token.Kind) {x : Text}, kind ∈ Dialect.standardStarts →
      kind.match? s.pastBlanks.rest = some x → Dialect.standard.classify s.pastBlanks.cursor =
        some ⟨kind, x, s.pastBlanks.location⟩ := fun _ _ => Dialect.classify_of_match?
  have hnone : (∀ kind ∈ Dialect.standardStarts, kind.match? s.pastBlanks.rest = none) →
      Dialect.standard.classify s.pastBlanks.cursor = none := Dialect.classify_eq_none.2
  generalize s.pastBlanks = t at *
  cases h with
  | exhausted hrest =>
      rw [hnone (by rw [hrest]; decide)]
      exact runOn_invalid_nil hin hrest
  | invalid hrest hclass =>
      rw [hnone hclass]
      exact runOn_invalid_of_ne hin hrest
  | @number x hmatch =>
      rw [hclassify .number (by decide) hmatch]
      exact runOn_number hin hmatch
  | list hparen =>
      have hmatch : Token.Kind.leftParen.match? t.rest = some ['('] := by
        cases hparen with
        | list hrest => simp [hrest, Token.Kind.match?, Token.oneOf]
      rw [hclassify .leftParen (by decide) hmatch]
      exact runOn_list hrule hparen hin
  | placeholder hrest =>
      have hmatch : Token.Kind.separator.match? s'.rest = some [','] := by
        rw [hrest]
        rfl
      rw [hclassify .separator (by decide) hmatch]
      rfl
  | @prefixed s' sign after g hrest hsign hoperand =>
      have hmatch : Token.Kind.prefixOp.match? t.rest = some [sign] :=
        Token.oneOf_eq_some.2 ⟨sign, after, hrest, hsign, rfl⟩
      have hne : t.rest ≠ [] := by simp [hrest]
      have hpast := runOn_pass_one hin hne
      have h₁ := Session.onward_past_one hin hne
      rw [hclassify .prefixOp (by decide) hmatch]
      simp [prefixed, runOn_bind, Token.name?_sign hsign, hpast, hrule.run _ _ _ hoperand h₁.inside]
  | @call s' kind x node hkind hmatch hgiven =>
      have hpast := runOn_pass_prefix hin (Token.Kind.prefix_of_match? hmatch)
      have h₁ := Session.onward_past_prefix hin (Token.Kind.prefix_of_match? hmatch)
      have h₂ := Session.onward_pastBlanks h₁.inside
      have hcall : (call rule ⟨kind, x, t.location⟩).runOn t =
          (.ok (s'.closedAlong
            { t.opened (functionKind ⟨kind, x, t.location⟩) with operator? := some x } [node] node),
            s') := by
        simp [call, runOn_bind, hpast, runOn_arguments hrule hgiven h₂.inside]
      cases kind with
      | binaryFunction =>
          rw [hclassify .binaryFunction (by decide) hmatch]
          exact hcall
      | unaryFunction =>
          rw [hclassify .unaryFunction (by decide) hmatch]
          exact hcall
      | _ => simp [Token.Kind.isFunction] at hkind

theorem runOn_continued {first : Node} {g : Grouping Node}
    (h : inner.Tail s.pastBlanks first g s') (hs : s.Inside) :
    (continued Dialect.standard rule first).runOn s = (.ok (g.node s'.source), s') := by
  have hin := (Session.onward_pastBlanks hs).inside
  simp only [continued, runOn_bind, runOn_skipBlanks, runOn_get, Dialect.infixAt_eq]
  cases h with
  | stop hnone =>
      have hnone' : Link.next? s.pastBlanks.cursor.remaining = none := hnone
      simp only [hnone', Option.map_none]
      rfl
  | @link _ _ link g hnext hright =>
      have hnext' : Link.next? s.pastBlanks.cursor.remaining = some link := hnext
      have hpast := runOn_pass_prefix hin (Link.symbol_prefix_of_next? hnext)
      have h₁ := Session.onward_past_prefix hin (Link.symbol_prefix_of_next? hnext)
      have hrotate := rotate_joined s'.source link first (hrule.maximal _ _ _ hright)
      simp only [hnext', Option.map_some, infixed, Link.name?_symbol, Link.rank?_symbol, runOn_bind,
        hpast, hrule.run _ _ _ hright h₁.inside, runOn_closeAlong, runOn_get]
      show (ofResult ((Node.joined s'.source link first (g.node s'.source)).rotate
        Dialect.standard.rank? s'.source)).runOn s' = _
      rw [hrotate]
      rfl

end Parts

end Rule

/-! ## 4. Reading on is always possible -/

namespace Reading

section Total

variable {inner : Reading} {rule : Rule Node} (hrule : rule.Follows inner) {s : Session}

include hrule

/-- The items of a list come to an end: behind each of them less of the text is left. -/
theorem exists_items (hs : s.Inside) : ∃ nodes s', inner.Items s nodes s' := by
  generalize hlength : s.rest.length = length
  induction length using Nat.strongRecOn generalizing s with
  | ind length ih =>
      -- an item may consume nothing, but the separator behind it is passed
      by_cases hrest : s.rest = []
      · cases habandoned : s.abandoned with
        | true => exact ⟨[], s, .givenUp hrest habandoned⟩
        | false => exact ⟨[], _, .unclosed hrest habandoned⟩
      obtain ⟨g, s₁, hitem⟩ := hrule.total s hs
      have h₁ := hrule.onward _ _ _ hitem hs
      have h₂ := h₁.pastBlanks
      cases hnext : s₁.pastBlanks.rest with
      | nil =>
          have hless : s₁.pastBlanks.rest.length < length := by
            rw [hnext, ← hlength]
            exact List.length_pos_iff.2 hrest
          obtain ⟨nodes, s', hitems⟩ := ih _ hless h₂.inside rfl
          exact ⟨_, s', .ended hrest hitem hnext hitems⟩
      | cons c after =>
          have hne : s₁.pastBlanks.rest ≠ [] := by simp [hnext]
          have hless := hlength ▸ h₂.length_rest_past_lt hne
          by_cases hcomma : c = ','
          · subst hcomma
            have h₃ := Session.onward_past_one h₂.inside hne
            have h₄ := Session.onward_pastBlanks h₃.inside
            obtain ⟨nodes, s', hitems⟩ :=
              ih _ (Nat.lt_of_le_of_lt h₄.length_rest_le hless) h₄.inside rfl
            exact ⟨_, s', .comma hrest hitem hnext hitems⟩
          by_cases hclose : c = ')'
          · subst hclose
            exact ⟨_, _, .closed hrest hitem hnext⟩
          have h₃ := Session.onward_note h₂.inside .invalidInList
          have h₄ := Session.onward_past_one h₃.inside hne
          obtain ⟨nodes, s', hitems⟩ := ih _ hless h₄.inside rfl
          exact ⟨_, s', .junk hrest hitem hnext hcomma hclose hitems⟩

theorem exists_paren (hs : s.Inside) {after : Text} (hrest : s.rest = '(' :: after) :
    ∃ node s', inner.Paren s node s' := by
  have h₁ := Session.onward_past_one hs (by simp [hrest])
  obtain ⟨nodes, s', hitems⟩ := exists_items hrule (Session.onward_pastBlanks h₁.inside).inside
  exact ⟨_, s', .list hrest hitems⟩

theorem exists_arguments (hs : s.Inside) : ∃ node s', inner.Arguments s node s' := by
  by_cases hopen : s.rest.head? = some '('
  · obtain ⟨after, hrest⟩ := List.head?_eq_some_iff.1 hopen
    obtain ⟨node, s', hparen⟩ := exists_paren hrule hs hrest
    exact ⟨node, s', .given hparen⟩
  · exact ⟨_, _, .missing hopen⟩

theorem exists_call (hs : s.Inside) {kind : Token.Kind} {x : Text} (hkind : kind.isFunction = true)
    (hmatch : kind.match? s.rest = some x) : ∃ node s', inner.Primary s node s' := by
  have h₁ := Session.onward_past_prefix hs (Token.Kind.prefix_of_match? hmatch)
  obtain ⟨given, s', hgiven⟩ := exists_arguments hrule (Session.onward_pastBlanks h₁.inside).inside
  exact ⟨_, s', .call hkind hmatch hgiven⟩

theorem exists_primary (hs : s.Inside) : ∃ node s', inner.Primary s node s' := by
  by_cases hrest : s.rest = []
  · exact ⟨_, _, .exhausted hrest⟩
  by_cases hnone : ∀ kind ∈ Dialect.standardStarts, kind.match? s.rest = none
  · exact ⟨_, _, .invalid hrest hnone⟩
  obtain ⟨kind, hkind, hsome⟩ : ∃ kind ∈ Dialect.standardStarts, kind.match? s.rest ≠ none := by
    simpa using hnone
  obtain ⟨x, hmatch⟩ := Option.ne_none_iff_exists'.1 hsome
  cases kind with
  | number => exact ⟨_, _, .number hmatch⟩
  | leftParen =>
      obtain ⟨c, after, hnext, hc, -⟩ := Token.oneOf_eq_some.1 hmatch
      obtain rfl : c = '(' := by simpa using hc
      obtain ⟨node, s', hparen⟩ := exists_paren hrule hs hnext
      exact ⟨node, s', .list hparen⟩
  | separator =>
      obtain ⟨c, after, hnext, hc, -⟩ := Token.oneOf_eq_some.1 hmatch
      obtain rfl : c = ',' := by simpa using hc
      exact ⟨_, _, .placeholder hnext⟩
  | prefixOp =>
      obtain ⟨sign, after, hnext, hsign, -⟩ := Token.oneOf_eq_some.1 hmatch
      obtain ⟨g, s', hoperand⟩ := hrule.total _ (Session.onward_past_one hs hrest).inside
      exact ⟨_, s', .prefixed hnext hsign hoperand⟩
  | binaryFunction => exact exists_call hrule hs rfl hmatch
  | unaryFunction => exact exists_call hrule hs rfl hmatch
  | infixOp => simp [Dialect.standardStarts] at hkind
  | postfixOp => simp [Dialect.standardStarts] at hkind

theorem exists_tail (hs : s.Inside) (first : Node) : ∃ g s', inner.Tail s first g s' := by
  cases hnext : Link.next? s.rest with
  | none => exact ⟨_, s, .stop hnext⟩
  | some link =>
      have h₁ := Session.onward_past_prefix hs (Link.symbol_prefix_of_next? hnext)
      obtain ⟨g, s', hright⟩ := hrule.total _ h₁.inside
      exact ⟨_, s', .link hnext hright⟩

end Total

end Reading

/-- **The rule for expressions follows its relation**: inside a text it has a result and no fault,
    and the result is the one of the relation. -/
theorem expression_follows (levels : Nat) :
    (Rule.expression Dialect.standard levels).Follows (Reads levels) := by
  induction levels with
  | zero =>
      refine ⟨fun s _ => ⟨_, _, rfl, rfl⟩, fun _ _ _ => Reads.onward,
        fun _ _ _ => Reads.maximal, ?_⟩
      rintro s g s' ⟨rfl, rfl⟩ hs
      have hbegin := (Session.onward_begin hs).inside
      simp only [Rule.expression, Rule.runOn_bind, Rule.runOn_modify, Rule.runOn_abandon hbegin]
      rfl
  | succ levels ih =>
      refine ⟨fun s hs => ?_, fun _ _ _ => Reads.onward, fun _ _ _ => Reads.maximal, ?_⟩
      · have h₁ := Session.onward_entered hs
        obtain ⟨first, s₁, hprimary⟩ := Reading.exists_primary ih h₁.inside
        have h₂ := (hprimary.onward ih.onward h₁.inside).pastBlanks
        obtain ⟨g, s₂, htail⟩ := Reading.exists_tail ih h₂.inside first
        exact ⟨g, _, first, s₁, s₂, hprimary, htail, rfl⟩
      · rintro s g s' ⟨first, s₁, s₂, hprimary, htail, rfl⟩ hs
        have h₁ := hprimary.onward ih.onward (Session.onward_entered hs).inside
        have hfirst := Rule.runOn_primary ih (s := s.begin.enter) hprimary hs
        simp only [Rule.expression, Rule.runOn_bind, Rule.runOn_modify, Rule.runOn_nested, hfirst,
          Rule.runOn_continued ih htail h₁.inside]
        rfl

/-! ## 5. Whole texts -/

/-- The session behind a whole text. -/
def Session.finished (s : Session) : Session :=
  if s.pastBlanks.rest = [] then s.pastBlanks else s.pastBlanks.note .trailingCharacters

/-- The rule for whole texts, whatever the dialect, reads as far as the one for expressions, and
    reports what is left over. -/
theorem Rule.runOn_root {dialect : Dialect} {levels : Nat} {s s' : Session} {node : Node}
    (hs' : s'.Inside) (hrun : (expression dialect levels).runOn s = (.ok node, s')) :
    (root dialect levels).runOn s = (.ok node, s'.finished) := by
  unfold root Session.finished
  simp only [runOn_bind, hrun, runOn_skipBlanks,
    runOn_atEnd (Session.onward_pastBlanks hs').inside]
  by_cases hrest : s'.pastBlanks.rest = []
  · simp [hrest]
  · simp [hrest, Except.map]

/-- A text has a tree, whatever the dialect, if an expression is read at its start. -/
theorem parse_of_runOn {settings : Settings} {source : Text} {node : Node} {s' : Session}
    (hs' : s'.Inside) (hrun : (Rule.expression settings.dialect settings.limit.levels).runOn
      (Session.start source) = (.ok node, s')) :
    parse settings source = .ok ⟨node, s'.finished⟩ := by
  unfold parse
  simp only [Rule.runOn_root hs' hrun]

theorem parse_eq {limit : NestingLimit} {source : Text} {g : Grouping Node} {s' : Session}
    (h : Reads limit.levels (Session.start source) g s') :
    parse ⟨limit, Dialect.standard⟩ source = .ok ⟨g.node s'.source, s'.finished⟩ := by
  have hstart := Session.inside_start source
  have hfollows := expression_follows limit.levels
  exact parse_of_runOn (hfollows.onward _ _ _ h hstart).inside (hfollows.run _ _ _ h hstart)

/-- **Every text has a tree.** -/
theorem exists_parse (limit : NestingLimit) (source : Text) :
    ∃ g s', Reads limit.levels (Session.start source) g s' ∧
      parse ⟨limit, Dialect.standard⟩ source = .ok ⟨g.node s'.source, s'.finished⟩ := by
  obtain ⟨g, s', h⟩ :=
    (expression_follows limit.levels).total _ (Session.inside_start source)
  exact ⟨g, s', h, parse_eq h⟩

end Reckoner
