import Reckoner.Proofs.Shape
import Reckoner.Proofs.Spans

/-!
# What nodes are made of

The kind of a node tells which of its fields are set, which children it has and how its text is put
together from theirs. Regrouping gives infix nodes new operands and new texts without a look at what
stands between them; the symbol of a node still stands between exactly its two operands.

* `Node.WellFormed` -- the seven kinds of nodes, each with its fields, children and text;
* `Text.Seam`, `Grouping.Seamed` -- an infix symbol between two places of a text, with blanks around
  it, and the symbols of a grouping between their operands; `Seamed.settle` -- regrouping keeps them
  there;
* `Reads.forms` -- the operands that are read are well formed and have their symbols between them;
* `parse_wellFormed` -- so every node of every tree is well formed.
-/

namespace Reckoner

/-! ## 1. Well-formed nodes -/

/-- The functions that a kind of node stands for. -/
def Node.Kind.keywords : Kind → List Text
  | .binaryFunction => Keyword.binary
  | .unaryFunction => Keyword.unary
  | _ => []

/-- The fields, the children and the text of a node, by its kind. -/
inductive Node.WellFormed : Node → Prop where
  /-- A lexeme and its number. -/
  | number (span : Span) {x : Text} (hx : Numeral.lexeme? x = some x) :
      WellFormed (.mk ⟨.number, span, x, none, none, some (Number.ofLexeme x)⟩ [])
  /-- A sign, blanks and the operand. -/
  | signed (span : Span) {sign : Char} {name gap : Text} {operand : Node}
      (hsign : sign ∈ Token.signs) (hname : Operator.names.lookup [sign] = some name)
      (hgap : gap.Blank) :
      WellFormed
        (.mk ⟨.prefixOp, span, [sign] ++ gap ++ operand.text, some name, some [sign], none⟩
          [operand])
  /-- The first operand, the symbol among blanks and the second operand. -/
  | joined (span : Span) {symbol name before behind : Text} {first second : Node}
      (hsymbol : symbol ∈ Token.infixSymbols) (hname : Operator.names.lookup symbol = some name)
      (hbefore : before.Blank) (hbehind : behind.Blank) :
      WellFormed
        (.mk ⟨.infixOp, span, first.text ++ before ++ symbol ++ behind ++ second.text, some name,
          some symbol, none⟩ [first, second])
  /-- The name of a function, blanks and its list, or nothing where the list should be. -/
  | applied (span : Span) {kind : Kind} {name gap : Text} {given : Node}
      (hname : name ∈ kind.keywords) (hgap : gap.Blank)
      (hgiven : given.kind = .paren ∨
        given.kind = .expression ∧ given.span.start = given.span.stop) :
      WellFormed (.mk ⟨kind, span, name ++ gap ++ given.text, some name, none, none⟩ [given])
  /-- A parenthesis and what follows it. -/
  | list (span : Span) (inside : Text) (items : List Node) :
      WellFormed (.mk ⟨.paren, span, '(' :: inside, none, none, none⟩ items)
  /-- Something malformed, or nothing. -/
  | empty (span : Span) (text : Text) :
      WellFormed (.mk ⟨.expression, span, text, none, none, none⟩ [])

/-! ## 2. Stretches of a text -/

namespace Text

variable {source : Text} {a b c : Int}

/-- Two stretches that meet make up one. -/
theorem slice_append (source : Text) (ha : 0 ≤ a) (hab : a ≤ b) (hbc : b ≤ c) :
    source.slice a b ++ source.slice b c = source.slice a c := by
  obtain ⟨l, rfl⟩ := Int.eq_ofNat_of_zero_le ha
  obtain ⟨m, rfl⟩ := Int.eq_ofNat_of_zero_le (Int.le_trans ha hab)
  obtain ⟨n, rfl⟩ := Int.eq_ofNat_of_zero_le (Int.le_trans (Int.le_trans ha hab) hbc)
  have hlm : l + (m - l) = m := by omega
  have hln : m - l + (n - m) = n - l := by omega
  rw [slice_natCast, slice_natCast, slice_natCast, ← hln, List.take_add, List.drop_drop, hlm]

/-- A symbol stands between two places, with nothing but blanks around it. -/
def Seam (source : Text) (a : Int) (symbol : Text) (b : Int) : Prop :=
  ∃ before behind, before.Blank ∧ behind.Blank ∧ source.slice a b = before ++ symbol ++ behind

end Text

namespace Session

variable {s s' : Session} {x after : Text}

/-- What starts with a lexeme at the cursor goes on behind it. -/
theorem slice_lexeme (hs : s.Inside) (hrest : s.rest = x ++ after) {b : Int}
    (hb : (s.past x.length).location.offset ≤ b) :
    s.source.slice s.location.offset b =
      x ++ s.source.slice (s.past x.length).location.offset b := by
  have hcut : s.source.slice s.location.offset (s.past x.length).location.offset = x :=
    cut_past hs hrest
  have hnonneg : 0 ≤ s.location.offset := hs.1
  have hle : s.location.offset ≤ (s.past x.length).location.offset :=
    Int.le_add_of_nonneg_right (Int.natCast_nonneg _)
  rw [← Text.slice_append s.source hnonneg hle hb, hcut]

/-- A lexeme and the node behind it have only blanks between them. -/
theorem exists_gap (hs : s.Inside) (hrest : s.rest = x ++ after) {child : Node}
    (h : (s.past x.length).Spans child s') : ∃ gap, gap.Blank ∧
      s.source.slice s.location.offset child.span.stop.offset = x ++ gap ++ child.text := by
  have hinside := (Session.onward_past_prefix hs ⟨after, hrest.symm⟩).inside
  obtain ⟨hstart, hle, -⟩ := h.laid
  have htext : child.text = s.source.slice child.span.start.offset child.span.stop.offset :=
    h.exact.self.text
  refine ⟨_, h.before.slice hinside.1 h.exact.self.start_nonneg, ?_⟩
  rw [slice_lexeme hs hrest (Int.le_trans hstart hle), List.append_assoc, htext]
  exact congrArg (x ++ ·) (Text.slice_append s.source hinside.1 hstart hle).symm

/-- An infix symbol at the cursor stands between the node in front of it and the one behind it. -/
theorem Spans.seam {t : Session} {first second : Node} {symbol : Text} (hfirst : t.Spans first s)
    (hs : t.Onward s) (hrest : s.rest = symbol ++ after)
    (hsecond : (s.past symbol.length).Spans second s') :
    t.source.Seam first.span.stop.offset symbol second.span.start.offset := by
  have hinside := (Session.onward_past_prefix hs.inside ⟨after, hrest.symm⟩).inside
  have hstop : 0 ≤ first.span.stop.offset :=
    Int.le_trans hfirst.exact.self.start_nonneg hfirst.exact.self.start_le_stop
  have hstart := hsecond.laid.1
  have hlexeme := slice_lexeme hs.inside hrest hstart
  rw [hs.source] at hlexeme
  have hbehind : t.source.BlankBetween (s.past symbol.length).location.offset
      second.span.start.offset := hs.source ▸ hsecond.before
  have hle : s.location.offset ≤ (s.past symbol.length).location.offset :=
    Int.le_add_of_nonneg_right (Int.natCast_nonneg _)
  refine ⟨_, _, hfirst.behind.slice hstop hs.inside.1,
    hbehind.slice hinside.1 hsecond.exact.self.start_nonneg, ?_⟩
  rw [← Text.slice_append t.source hstop hfirst.laid.2.2 (Int.le_trans hle hstart), hlexeme,
    List.append_assoc]

end Session

/-! ## 3. Symbols between their operands -/

/-- The symbols of a grouping stand between what they join. -/
def Grouping.Seamed (source : Text) : Grouping Node → Prop
  | .operand _ => True
  | .join link left right =>
      source.Seam (left.node source).span.stop.offset link.symbol
          (right.node source).span.start.offset ∧
        left.Seamed source ∧ right.Seamed source

/-- **Regrouping leaves every symbol between its operands**: the lowered one gets an operand that
    starts where its old one did, the raised one gets one that ends where its old one did. -/
theorem Grouping.Seamed.settle {source : Text} {link : Link} {p : Node} {g : Grouping Node}
    (hg : g.Seamed source)
    (h : source.Seam p.span.stop.offset link.symbol (g.node source).span.start.offset) :
    (Grouping.settle link (.operand p) g).Seamed source := by
  induction g with
  | operand q => exact ⟨h, trivial, trivial⟩
  | join upper left right ihl _ =>
      obtain ⟨hupper, hleft, hright⟩ := hg
      unfold Grouping.settle
      split
      · exact ⟨h, trivial, hupper, hleft, hright⟩
      · refine ⟨?_, ihl hleft h, hright⟩
        rw [stop_settle]
        exact hupper

/-- An infix node with its symbol between its operands is well formed. -/
theorem Node.wellFormed_joined {source : Text} {link : Link} {first second : Node}
    (hexact : (Node.joined source link first second).Throughout (Node.Exact source))
    (hseam : source.Seam first.span.stop.offset link.symbol second.span.start.offset) :
    (Node.joined source link first second).WellFormed := by
  obtain ⟨before, behind, hbefore, hbehind, hslice⟩ := hseam
  have hfirst : first.Exact source := (hexact.children first (by simp [Node.joined])).self
  have hsecond : second.Exact source := (hexact.children second (by simp [Node.joined])).self
  have hmeet : first.span.stop.offset ≤ second.span.start.offset := by
    simpa [Node.joined] using hexact.self.inOrder
  have hnonneg : 0 ≤ first.span.stop.offset :=
    Int.le_trans hfirst.start_nonneg hfirst.start_le_stop
  have htext : source.slice first.span.start.offset second.span.stop.offset =
      first.text ++ before ++ link.symbol ++ behind ++ second.text := by
    calc source.slice first.span.start.offset second.span.stop.offset
        = source.slice first.span.start.offset first.span.stop.offset ++
            source.slice first.span.stop.offset second.span.stop.offset :=
          (Text.slice_append source hfirst.start_nonneg hfirst.start_le_stop
            (Int.le_trans hmeet hsecond.start_le_stop)).symm
      _ = first.text ++ (source.slice first.span.stop.offset second.span.start.offset ++
            source.slice second.span.start.offset second.span.stop.offset) := by
          rw [Text.slice_append source hnonneg hmeet hsecond.start_le_stop, hfirst.text]
      _ = first.text ++ before ++ link.symbol ++ behind ++ second.text := by
          rw [hslice, ← hsecond.text]
          simp only [List.append_assoc]
  have hnode : Node.joined source link first second =
      .mk ⟨.infixOp, ⟨first.span.start, second.span.stop⟩,
        source.slice first.span.start.offset second.span.stop.offset, some link.name,
        some link.symbol, none⟩ [first, second] := rfl
  rw [hnode, htext]
  exact .joined _ link.isInfix link.name?_symbol hbefore hbehind

/-- A grouping of well-formed operands with its symbols between them gives a well-formed tree. -/
theorem Grouping.wellFormed_node {source : Text} {g : Grouping Node}
    (hexact : (g.node source).Throughout (Node.Exact source)) (hseamed : g.Seamed source)
    (h : ∀ p ∈ g.chain.operands, p.Throughout Node.WellFormed) :
    (g.node source).Throughout Node.WellFormed := by
  induction g with
  | operand p => exact h p List.mem_cons_self
  | join link left right ihl ihr =>
      obtain ⟨hseam, hleft, hright⟩ := hseamed
      simp only [chain, Chain.operands_append] at h
      obtain ⟨hl, hr⟩ := List.forall_mem_append.1 h
      have hexactl := hexact.children (left.node source) (by simp [node, Node.joined])
      have hexactr := hexact.children (right.node source) (by simp [node, Node.joined])
      refine .node (Node.wellFormed_joined hexact hseam) ?_
      simpa [node, Node.joined] using ⟨ihl hexactl hleft hl, ihr hexactr hright hr⟩

/-! ## 4. What is read -/

namespace Reading

/-- The operands of an expression are well formed and have their symbols between them. -/
def Forms (inner : Reading) : Prop :=
  ∀ s g s', inner s g s' → s.Inside →
    (∀ p ∈ g.chain.operands, p.Throughout Node.WellFormed) ∧ g.Seamed s.source

variable {inner : Reading} {s s' : Session}
  (honward : ∀ s g s', inner s g s' → s.Inside → s.Onward s')
  (hcovers : ∀ s g s', inner s g s' → s.Inside → s.Covers g s') (hinner : inner.Forms)

include honward hcovers hinner

theorem item_wellFormed {g : Grouping Node} {s₁ : Session} (hitem : inner s g s₁)
    (hs : s.Inside) : (g.node s₁.source).Throughout Node.WellFormed := by
  obtain ⟨hparts, hseamed⟩ := hinner _ _ _ hitem hs
  rw [(honward _ _ _ hitem hs).source]
  exact Grouping.wellFormed_node (hcovers _ _ _ hitem hs).spans.exact hseamed hparts

theorem Items.wellFormed {nodes : List Node} (h : inner.Items s nodes s') (hs : s.Inside) :
    ∀ n ∈ nodes, n.Throughout Node.WellFormed := by
  induction h with
  | givenUp => simp
  | unclosed => simp
  | comma _ hitem hnext _ ih =>
      have h₁ := (honward _ _ _ hitem hs).pastBlanks
      have h₂ := (h₁.past_one (by simp [hnext])).pastBlanks
      exact List.forall_mem_cons.2
        ⟨item_wellFormed honward hcovers hinner hitem hs, ih h₂.inside⟩
  | closed _ hitem =>
      exact List.forall_mem_singleton.2 (item_wellFormed honward hcovers hinner hitem hs)
  | junk _ hitem hnext _ _ _ ih =>
      have h₁ := (honward _ _ _ hitem hs).pastBlanks
      have h₂ := (h₁.note .invalidInList).past_one (by simp [hnext])
      exact List.forall_mem_cons.2
        ⟨item_wellFormed honward hcovers hinner hitem hs, ih h₂.inside⟩
  | ended _ hitem _ _ ih =>
      have h₁ := (honward _ _ _ hitem hs).pastBlanks
      exact List.forall_mem_cons.2
        ⟨item_wellFormed honward hcovers hinner hitem hs, ih h₁.inside⟩

theorem Paren.wellFormed {node : Node} (h : inner.Paren s node s') (hs : s.Inside) :
    node.Throughout Node.WellFormed := by
  cases h with
  | @list _ after children hopen hitems =>
      have hrest : s.rest = ['('] ++ after := hopen
      have h₁ := Session.onward_past_prefix hs ⟨after, hrest.symm⟩
      have h₂ := Session.onward_pastBlanks h₁.inside
      have h₃ := h₂.trans (hitems.onward honward h₂.inside)
      have hsource : s'.source = s.source := (h₁.trans h₃).source
      have hnode : s'.closed (s.opened .paren) children =
          .mk ⟨.paren, ⟨s.location, s'.location⟩,
            s'.source.slice s.location.offset s'.location.offset, none, none, none⟩ children := rfl
      refine .node ?_ (hitems.wellFormed honward hcovers hinner h₂.inside)
      rw [hnode, hsource, Session.slice_lexeme hs hrest (h₃.offset_le h₁.inside)]
      exact .list _ _ _

theorem Arguments.wellFormed {node : Node} (h : inner.Arguments s node s') (hs : s.Inside) :
    node.Throughout Node.WellFormed := by
  cases h with
  | given hparen => exact hparen.wellFormed honward hcovers hinner hs
  | missing => exact .node (.empty _ _) (List.forall_mem_nil _)

omit honward hcovers hinner in
/-- Behind the name of a function there is a list, or a node that takes no character. -/
theorem Arguments.paren_or_empty {node : Node} (h : inner.Arguments s node s') :
    node.kind = .paren ∨ node.kind = .expression ∧ node.span.start = node.span.stop := by
  cases h with
  | given hparen =>
      obtain ⟨-, -⟩ := hparen
      exact .inl rfl
  | missing => exact .inr ⟨rfl, rfl⟩

theorem Primary.wellFormed {node : Node} (h : inner.Primary s node s') (hs : s.Inside) :
    node.Throughout Node.WellFormed := by
  cases h with
  | exhausted => exact .node (.empty _ _) (List.forall_mem_nil _)
  | invalid => exact .node (.empty _ _) (List.forall_mem_nil _)
  | @number x hmatch =>
      obtain ⟨hx, after, hrest⟩ := Numeral.isNumeral_of_lexeme? hmatch
      have hwhole : Numeral.lexeme? (x ++ []) = some x :=
        Numeral.lexeme?_append hx (by simp [Text.Breaks])
      rw [List.append_nil] at hwhole
      have hnode : (s.past x.length).closed
          { s.opened .number with number? := some (Number.ofLexeme x) } [] =
          .mk ⟨.number, ⟨s.location, (s.past x.length).location⟩,
            Span.cut ⟨s.location, (s.past x.length).location⟩ s.source, none, none,
            some (Number.ofLexeme x)⟩ [] := rfl
      rw [hnode, Session.cut_past hs hrest.symm]
      exact .node (.number _ hwhole) (List.forall_mem_nil _)
  | list hparen => exact hparen.wellFormed honward hcovers hinner hs
  | placeholder => exact .node (.empty _ _) (List.forall_mem_nil _)
  | @prefixed _ sign after g hrest hsign hoperand =>
      have h₁ := Session.onward_past_one hs (by simp [hrest])
      have hsource : s'.source = s.source := (h₁.trans (honward _ _ _ hoperand h₁.inside)).source
      have hbelow := item_wellFormed honward hcovers hinner hoperand h₁.inside
      obtain ⟨gap, hgap, htext⟩ := Session.exists_gap (x := [sign]) hs hrest
        (item_spans honward hcovers hoperand h₁.inside)
      generalize g.node s'.source = operand at hbelow htext
      have hnode : s'.closedAlong { s.opened .prefixOp with
            symbol? := some [sign], operator? := some (Token.signName sign) } [operand] operand =
          .mk ⟨.prefixOp, ⟨s.location, operand.span.stop⟩,
            s'.source.slice s.location.offset operand.span.stop.offset,
            some (Token.signName sign), some [sign], none⟩ [operand] := rfl
      rw [hnode, hsource, htext]
      exact .node (.signed _ hsign (Token.name?_sign hsign) hgap)
        (List.forall_mem_singleton.2 hbelow)
  | @call _ kind x given hkind hmatch hgiven =>
      obtain ⟨after, hrest⟩ := Token.Kind.prefix_of_match? hmatch
      have h₁ := Session.onward_past_prefix hs ⟨after, hrest⟩
      have h₂ := Session.onward_pastBlanks h₁.inside
      have hsource : s'.source = s.source :=
        ((h₁.trans h₂).trans (hgiven.onward honward h₂.inside)).source
      have hspans := (hgiven.spans honward hcovers h₂.inside).after h₂ (h₂.offset_le h₁.inside)
        (Session.blankBetween_pastBlanks h₁.inside)
      obtain ⟨gap, hgap, htext⟩ := Session.exists_gap hs hrest.symm hspans
      have hname : x ∈ (Rule.functionKind ⟨kind, x, s.location⟩).keywords := by
        cases kind with
        | binaryFunction => exact (Keyword.mem_of_match? hmatch).1
        | unaryFunction => exact (Keyword.mem_of_match? hmatch).1
        | _ => simp [Token.Kind.isFunction] at hkind
      have hnode : s'.closedAlong { s.opened (Rule.functionKind ⟨kind, x, s.location⟩) with
            operator? := some x } [given] given =
          .mk ⟨Rule.functionKind ⟨kind, x, s.location⟩, ⟨s.location, given.span.stop⟩,
            s'.source.slice s.location.offset given.span.stop.offset, some x, none, none⟩
            [given] := rfl
      rw [hnode, hsource, htext]
      exact .node (.applied _ hname hgap hgiven.paren_or_empty)
        (List.forall_mem_singleton.2 (hgiven.wellFormed honward hcovers hinner h₂.inside))

omit honward in
/-- An operand and what follows it: the symbol stands behind the one and in front of the others. -/
theorem Tail.forms {first : Node} {g : Grouping Node} {s₁ : Session}
    (h : inner.Tail s₁ first g s') (hfirst : s.Spans first s₁) (hs : s.Onward s₁)
    (hbelow : first.Throughout Node.WellFormed) :
    (∀ p ∈ g.chain.operands, p.Throughout Node.WellFormed) ∧ g.Seamed s.source := by
  cases h with
  | stop => exact ⟨List.forall_mem_singleton.2 hbelow, trivial⟩
  | @link _ _ link g hnext hright =>
      obtain ⟨after, hrest⟩ := Link.symbol_prefix_of_next? hnext
      have h₁ := Session.onward_past_prefix hs.inside ⟨after, hrest⟩
      obtain ⟨hparts, hseamed⟩ := hinner _ _ _ hright h₁.inside
      have hseam := hfirst.seam hs hrest.symm (hcovers _ _ _ hright h₁.inside).spans
      rw [h₁.source, hs.source] at hseamed hseam
      refine ⟨?_, hseamed.settle hseam⟩
      rw [Grouping.chain_settle]
      exact List.forall_mem_cons.2 ⟨hbelow, hparts⟩

end Reading

/-- **The operands of an expression are well formed, and each symbol stands between what it
    joins.** -/
theorem Reads.forms (levels : Nat) : (Reads levels).Forms := by
  induction levels with
  | zero =>
      rintro s g s' ⟨rfl, -⟩ -
      exact ⟨List.forall_mem_singleton.2 (.node (.empty _ _) (List.forall_mem_nil _)), trivial⟩
  | succ levels ih =>
      rintro s g s' ⟨first, s₁, s₂, hprimary, htail, rfl⟩ hs
      have honward : ∀ s g s', Reads levels s g s' → s.Inside → s.Onward s' :=
        fun _ _ _ => Reads.onward
      have hcovers : ∀ s g s', Reads levels s g s' → s.Inside → s.Covers g s' :=
        fun _ _ _ => Reads.covers
      have h₁ := Session.onward_entered hs
      have h₂ := hprimary.onward honward h₁.inside
      have hspans := (hprimary.spans honward hcovers h₁.inside).pastBlanks h₂
      have hforms := htail.forms hcovers ih hspans h₂.pastBlanks
        (hprimary.wellFormed honward hcovers ih h₁.inside)
      rwa [h₁.source] at hforms

/-- **Every node of a tree is well formed**, whatever problems the text has and whatever nesting
    limit it is read with. -/
theorem parse_wellFormed (limit : NestingLimit) (source : Text) :
    ∃ p, parse ⟨limit, Dialect.standard⟩ source = .ok p ∧
      ∀ node ∈ p.root.walk, node.WellFormed := by
  obtain ⟨g, s', hreads, hparse⟩ := exists_parse limit source
  have hall := Reading.item_wellFormed (fun _ _ _ => Reads.onward) (fun _ _ _ => Reads.covers)
    (Reads.forms limit.levels) hreads (Session.inside_start source)
  exact ⟨_, hparse, Node.forall_mem_walk.2 hall⟩

end Reckoner
