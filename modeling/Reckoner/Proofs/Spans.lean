import Reckoner.Proofs.Stretch
import Reckoner.Proofs.Throughout

/-!
# Spans

Where the nodes of a tree stand in the text, whatever problems were found in it.

* `Text.BlankBetween` -- nothing but blanks stands between two places;
* `Laid` -- nodes stand one behind the other between two places;
* `Node.Exact` -- the span of a node: its text, its children in it, and where it must start and end;
* `Grouping.exact_node` -- operands that stand one behind the other give an exact tree, however they
  are grouped;
* `Session.Spans`, `Session.Covers` -- where a node and the operands of an expression stand between
  two sessions; `Reads.covers` -- so do those of every expression that is read;
* `parse_exact` -- all nodes of a tree are exact, and around the tree there are only blanks.
-/

namespace Reckoner

/-! ## 1. Blanks between two places -/

namespace Text

/-- Nothing but blanks stands between two places. -/
def BlankBetween (source : Text) (a b : Int) : Prop :=
  ∀ i : Nat, a ≤ i → (i : Int) < b → ∀ c ∈ source[i]?, Cursor.isBlank c = true

variable {source : Text} {a b c : Int}

theorem blankBetween_refl (source : Text) (a : Int) : source.BlankBetween a a :=
  fun _ hle hlt => absurd hlt (Int.not_lt.2 hle)

theorem BlankBetween.trans (h : source.BlankBetween a b) (h' : source.BlankBetween b c) :
    source.BlankBetween a c := by
  intro i hle hlt
  by_cases hi : (i : Int) < b
  · exact h i hle hi
  · exact h' i (Int.not_lt.1 hi) hlt

theorem BlankBetween.slice (h : source.BlankBetween a b) (ha : 0 ≤ a) (hb : 0 ≤ b) :
    (source.slice a b).Blank := by
  obtain ⟨m, rfl⟩ := Int.eq_ofNat_of_zero_le ha
  obtain ⟨n, rfl⟩ := Int.eq_ofNat_of_zero_le hb
  intro d hd
  rw [slice_natCast] at hd
  obtain ⟨i, hi⟩ := List.mem_iff_getElem?.1 hd
  have hlt : i < n - m := by
    by_contra hge
    rw [List.getElem?_take_eq_none (Nat.not_lt.1 hge)] at hi
    cases hi
  rw [List.getElem?_take_of_lt hlt, List.getElem?_drop] at hi
  exact h (m + i) (by omega) (by omega) d hi

end Text

/-- Skipping passes nothing but blanks. -/
theorem Cursor.blankBetween_skipAtMost (bound : Nat) {c : Cursor} (h : 0 ≤ c.location.offset) :
    c.source.BlankBetween c.location.offset (skipAtMost bound c).location.offset := by
  induction bound generalizing c with
  | zero => exact Text.blankBetween_refl _ _
  | succ bound ih =>
      unfold skipAtMost
      cases hhere : c.current? with
      | none => exact Text.blankBetween_refl _ _
      | some here =>
          by_cases hblank : isBlank here = true
          · simp only [hblank, if_true]
            have hrest : c.source.BlankBetween (c.location.offset + 1)
                (skipAtMost bound (c.move 1)).location.offset :=
              ih (c := c.move 1) (by rw [move_offset]; omega)
            refine Text.BlankBetween.trans (fun i hle hlt d hd => ?_) hrest
            have hi : c.location.offset = i := by omega
            rw [current?, hi, Text.charAt?_natCast, hd] at hhere
            rwa [Option.some.inj hhere]
          · simp only [hblank]
            exact Text.blankBetween_refl _ _

theorem Session.blankBetween_pastBlanks {s : Session} (hs : s.Inside) :
    s.source.BlankBetween s.location.offset s.pastBlanks.location.offset :=
  Cursor.blankBetween_skipAtMost _ hs.1

/-! ## 2. Nodes one behind the other -/

/-- The nodes stand one behind the other between two places. -/
def Laid : Int → List Node → Int → Prop
  | lo, [], hi => lo ≤ hi
  | lo, node :: rest, hi =>
      lo ≤ node.span.start.offset ∧ node.span.start.offset ≤ node.span.stop.offset ∧
        Laid node.span.stop.offset rest hi

namespace Laid

variable {lo hi lo' hi' : Int} {nodes : List Node}

theorem mono (h : Laid lo nodes hi) (hlo : lo' ≤ lo) (hhi : hi ≤ hi') : Laid lo' nodes hi' := by
  induction nodes generalizing lo lo' with
  | nil => exact Int.le_trans hlo (Int.le_trans h hhi)
  | cons node rest ih => exact ⟨Int.le_trans hlo h.1, h.2.1, ih h.2.2 (Int.le_refl _)⟩

theorem le (h : Laid lo nodes hi) : lo ≤ hi := by
  induction nodes generalizing lo with
  | nil => exact h
  | cons node rest ih => exact Int.le_trans h.1 (Int.le_trans h.2.1 (ih h.2.2))

/-- Two rows of nodes meet at some place. -/
theorem exists_append {first second : List Node} (h : Laid lo (first ++ second) hi) :
    ∃ mid, Laid lo first mid ∧ Laid mid second hi := by
  induction first generalizing lo with
  | nil => exact ⟨lo, Int.le_refl lo, h⟩
  | cons node first ih =>
      obtain ⟨mid, hfirst, hsecond⟩ := ih h.2.2
      exact ⟨mid, ⟨h.1, h.2.1, hfirst⟩, hsecond⟩

theorem mem (h : Laid lo nodes hi) {node : Node} (hnode : node ∈ nodes) :
    lo ≤ node.span.start.offset ∧ node.span.stop.offset ≤ hi := by
  induction nodes generalizing lo with
  | nil => cases hnode
  | cons head rest ih =>
      obtain ⟨hlo, hle, hrest⟩ := h
      rcases List.mem_cons.1 hnode with rfl | hnode
      · exact ⟨hlo, hrest.le⟩
      · obtain ⟨hstart, hstop⟩ := ih hrest hnode
        exact ⟨by omega, hstop⟩

theorem pairwise (h : Laid lo nodes hi) :
    nodes.Pairwise fun a b => a.span.stop.offset ≤ b.span.start.offset := by
  induction nodes generalizing lo with
  | nil => exact .nil
  | cons node rest ih => exact .cons (fun other hother => (h.2.2.mem hother).1) (ih h.2.2)

end Laid

/-! ## 3. Exact nodes -/

/-- The span of a node is where it stands in the text: it holds the text of the node, and its
    children one behind the other. An infix node reaches from its first operand to its second one; a
    sign and a function end where what they stand in front of ends. -/
structure Node.Exact (source : Text) (node : Node) : Prop where
  start_nonneg : 0 ≤ node.span.start.offset
  start_le_stop : node.span.start.offset ≤ node.span.stop.offset
  stop_le_length : node.span.stop.offset ≤ source.length
  text : node.text = source.slice node.span.start.offset node.span.stop.offset
  contains : ∀ child ∈ node.children, node.span.Contains child.span
  inOrder : node.children.Pairwise fun a b => a.span.stop.offset ≤ b.span.start.offset
  binary : node.kind = .infixOp → ∃ first second, node.children = [first, second] ∧
    node.span = ⟨first.span.start, second.span.stop⟩
  unary : node.kind = .prefixOp ∨ node.kind = .binaryFunction ∨ node.kind = .unaryFunction →
    ∃ child, node.children = [child] ∧ node.span.stop = child.span.stop

/-- Operands that are exact and stand one behind the other give an exact tree. -/
theorem Grouping.exact_node {source : Text} {g : Grouping Node} {lo hi : Int}
    (hexact : ∀ p ∈ g.chain.operands, p.Throughout (Node.Exact source))
    (hlaid : Laid lo g.chain.operands hi) :
    (g.node source).Throughout (Node.Exact source) ∧ Laid lo [g.node source] hi := by
  induction g generalizing lo hi with
  | operand p => exact ⟨hexact p List.mem_cons_self, hlaid⟩
  | join link left right ihl ihr =>
      simp only [chain, Chain.operands_append] at hexact hlaid
      obtain ⟨hexactl, hexactr⟩ := List.forall_mem_append.1 hexact
      obtain ⟨mid, hlaidl, hlaidr⟩ := hlaid.exists_append
      obtain ⟨hleft, hlo, hle, hmid⟩ := ihl hexactl hlaidl
      obtain ⟨hright, hmid', hle', hhi⟩ := ihr hexactr hlaidr
      -- the operands of both sides stand in one row, so the sides do not overlap either
      have hmeet : (left.node source).span.stop.offset ≤ (right.node source).span.start.offset :=
        Int.le_trans hmid hmid'
      refine ⟨.node ?_ ?_, hlo, ?_, hhi⟩
      · refine ⟨hleft.self.start_nonneg, ?_, hright.self.stop_le_length, rfl, ?_, ?_,
          fun _ => ⟨_, _, rfl, rfl⟩, fun h => ?_⟩
        · exact Int.le_trans hle (Int.le_trans hmeet hle')
        · simp only [node, Node.joined, Node.children_mk, List.forall_mem_cons]
          exact ⟨⟨Int.le_refl _, Int.le_trans hmeet hle'⟩, ⟨Int.le_trans hle hmeet, Int.le_refl _⟩,
            by simp⟩
        · simpa [node, Node.joined] using hmeet
        · simp [node, Node.joined, Node.kind, Label.joined, Label.refresh, Label.plain] at h
      · simpa [node, Node.joined] using ⟨hleft, hright⟩
      · exact Int.le_trans hle (Int.le_trans hmeet hle')

/-! ## 4. Nodes between two sessions -/

namespace Session

/-- A node that was read between two sessions, with only blanks around it. -/
structure Spans (s : Session) (node : Node) (s' : Session) : Prop where
  exact : node.Throughout (Node.Exact s.source)
  laid : Laid s.location.offset [node] s'.location.offset
  before : s.source.BlankBetween s.location.offset node.span.start.offset
  behind : s.source.BlankBetween node.span.stop.offset s'.location.offset

/-- The operands of an expression that was read between two sessions, with only blanks around the
    expression. -/
structure Covers (s : Session) (g : Grouping Node) (s' : Session) : Prop where
  exact : ∀ p ∈ g.chain.operands, p.Throughout (Node.Exact s.source)
  laid : Laid s.location.offset g.chain.operands s'.location.offset
  before : s.source.BlankBetween s.location.offset (g.node s.source).span.start.offset
  behind : s.source.BlankBetween (g.node s.source).span.stop.offset s'.location.offset

variable {s s₁ s' : Session} {node : Node} {g : Grouping Node}

theorem Covers.spans (h : s.Covers g s') : s.Spans (g.node s.source) s' :=
  ⟨(Grouping.exact_node h.exact h.laid).1, (Grouping.exact_node h.exact h.laid).2, h.before,
    h.behind⟩

theorem Spans.covers (h : s.Spans node s') : s.Covers (.operand node) s' :=
  ⟨by simpa [Grouping.chain, Chain.single, Chain.operands] using h.exact, h.laid, h.before,
    h.behind⟩

/-- Blanks in front of a node belong to no node. -/
theorem Spans.after (h : s₁.Spans node s') (hs₁ : s.Onward s₁)
    (hle : s.location.offset ≤ s₁.location.offset)
    (hblank : s.source.BlankBetween s.location.offset s₁.location.offset) : s.Spans node s' := by
  obtain ⟨hexact, hlaid, hbefore, hbehind⟩ := h
  rw [hs₁.source] at hexact hbefore hbehind
  exact ⟨hexact, hlaid.mono hle (Int.le_refl _), hblank.trans hbefore, hbehind⟩

/-- So do those behind it. -/
theorem Spans.pastBlanks (h : s.Spans node s₁) (hs : s.Onward s₁) : s.Spans node s₁.pastBlanks := by
  have hblank := blankBetween_pastBlanks hs.inside
  rw [hs.source] at hblank
  exact ⟨h.exact, h.laid.mono (Int.le_refl _) ((onward_pastBlanks hs.inside).offset_le hs.inside),
    h.before, h.behind.trans hblank⟩

/-- A node without operands of its own, from the place where it was begun to the cursor. -/
theorem spans_closed (hs : s.Inside) (h : s.Onward s') {label : Label} {children : List Node}
    (hstart : label.span.start = s.location)
    (hkind : label.kind = .expression ∨ label.kind = .number ∨ label.kind = .paren)
    (hexact : ∀ child ∈ children, child.Throughout (Node.Exact s.source))
    (hlaid : Laid s.location.offset children s'.location.offset) :
    s.Spans (s'.closed label children) s' := by
  have hspan : (s'.closed label children).span = ⟨s.location, s'.location⟩ := by
    rw [← hstart]
    rfl
  have hnode : (s'.closed label children).kind = label.kind := rfl
  refine ⟨.node ⟨?_, ?_, ?_, ?_, ?_, hlaid.pairwise, ?_, ?_⟩ hexact, ?_, ?_, ?_⟩
  · rw [hspan]
    exact hs.1
  · rw [hspan]
    exact hlaid.le
  · rw [hspan, ← h.source]
    exact h.inside.2
  · rw [← h.source]
    rfl
  · intro child hchild
    rw [hspan]
    exact hlaid.mem hchild
  · intro hkind'
    rw [hnode] at hkind'
    simp [hkind'] at hkind
  · intro hunary
    rw [hnode] at hunary
    rcases hkind with hk | hk | hk <;> simp [hk] at hunary
  · rw [Laid, hspan]
    exact ⟨Int.le_refl _, hlaid.le, Int.le_refl _⟩
  · rw [hspan]
    exact Text.blankBetween_refl _ _
  · rw [hspan]
    exact Text.blankBetween_refl _ _

/-- A node in front of an operand, from the place where it was begun to the end of the operand. -/
theorem spans_closedAlong (hs : s.Inside) (h : s.Onward s') {label : Label} {child : Node}
    (hstart : label.span.start = s.location) (hkind : label.kind ≠ .infixOp)
    (hexact : child.Throughout (Node.Exact s.source))
    (hlaid : Laid s.location.offset [child] s'.location.offset)
    (hbehind : s.source.BlankBetween child.span.stop.offset s'.location.offset) :
    s.Spans (s'.closedAlong label [child] child) s' := by
  have hspan : (s'.closedAlong label [child] child).span = ⟨s.location, child.span.stop⟩ := by
    rw [← hstart]
    rfl
  obtain ⟨hlo, hle, hhi⟩ := hlaid
  have hlo' := Int.le_trans hlo hle
  refine ⟨.node ⟨?_, ?_, ?_, ?_, ?_, List.pairwise_singleton _ _, ?_, ?_⟩ ?_, ?_, ?_, ?_⟩
  · rw [hspan]
    exact hs.1
  · rw [hspan]
    exact hlo'
  · rw [hspan]
    exact hexact.self.stop_le_length
  · rw [← h.source]
    rfl
  · rw [hspan]
    exact List.forall_mem_singleton.2 ⟨hlo, Int.le_refl _⟩
  · exact fun hkind' => absurd hkind' hkind
  · exact fun _ => ⟨child, rfl, rfl⟩
  · exact List.forall_mem_singleton.2 hexact
  · rw [Laid, hspan]
    exact ⟨Int.le_refl _, hlo', hhi⟩
  · rw [hspan]
    exact Text.blankBetween_refl _ _
  · rw [hspan]
    exact hbehind

/-- The items of a list between two sessions. -/
structure Row (s : Session) (nodes : List Node) (s' : Session) : Prop where
  exact : ∀ node ∈ nodes, node.Throughout (Node.Exact s.source)
  laid : Laid s.location.offset nodes s'.location.offset

theorem row_nil (h : s.Onward s') (hs : s.Inside) : s.Row [] s' :=
  ⟨by simp, h.offset_le hs⟩

/-- An item in front of the others. -/
theorem Row.cons {nodes : List Node} {t : Session} (hnode : s.Spans node s₁) (h : s.Onward s₁)
    (h₁ : s₁.Onward t) (hrow : t.Row nodes s') : s.Row (node :: nodes) s' := by
  obtain ⟨hexact, hlaid⟩ := hrow
  obtain ⟨hlo, hle, hhi⟩ := hnode.laid
  rw [h₁.source, h.source] at hexact
  refine ⟨List.forall_mem_cons.2 ⟨hnode.exact, hexact⟩, hlo, hle, hlaid.mono ?_ (Int.le_refl _)⟩
  exact Int.le_trans hhi (h₁.offset_le h.inside)

end Session

/-! ## 5. What is read -/

namespace Reading

variable {inner : Reading} {s s' : Session}
  (honward : ∀ s g s', inner s g s' → s.Inside → s.Onward s')
  (hinner : ∀ s g s', inner s g s' → s.Inside → s.Covers g s')

include honward hinner

theorem item_spans {g : Grouping Node} {s₁ : Session} (hitem : inner s g s₁) (hs : s.Inside) :
    s.Spans (g.node s₁.source) s₁ := by
  rw [(honward _ _ _ hitem hs).source]
  exact (hinner _ _ _ hitem hs).spans

theorem Items.row {nodes : List Node} (h : inner.Items s nodes s') (hs : s.Inside) :
    s.Row nodes s' := by
  induction h with
  | givenUp => exact Session.row_nil (Session.onward_refl hs) hs
  | unclosed => exact Session.row_nil (Session.onward_note hs _) hs
  | comma _ hitem hnext _ ih =>
      have h₁ := honward _ _ _ hitem hs
      have h₂ := Session.onward_pastBlanks h₁.inside
      have h₃ := (h₂.past_one (by simp [hnext])).pastBlanks
      exact .cons (item_spans honward hinner hitem hs) h₁ h₃ (ih h₃.inside)
  | closed _ hitem hnext =>
      have h₁ := honward _ _ _ hitem hs
      have h₂ := Session.onward_pastBlanks h₁.inside
      have h₃ := h₂.past_one (by simp [hnext])
      exact .cons (item_spans honward hinner hitem hs) h₁ h₃
        (Session.row_nil (Session.onward_refl h₃.inside) h₃.inside)
  | junk _ hitem hnext _ _ _ ih =>
      have h₁ := honward _ _ _ hitem hs
      have h₂ := Session.onward_pastBlanks h₁.inside
      have h₃ := (h₂.note .invalidInList).past_one (by simp [hnext])
      exact .cons (item_spans honward hinner hitem hs) h₁ h₃ (ih h₃.inside)
  | ended _ hitem _ _ ih =>
      have h₁ := honward _ _ _ hitem hs
      have h₂ := Session.onward_pastBlanks h₁.inside
      exact .cons (item_spans honward hinner hitem hs) h₁ h₂ (ih h₂.inside)

theorem Paren.spans {node : Node} (h : inner.Paren s node s') (hs : s.Inside) :
    s.Spans node s' := by
  have honward' := h.onward honward hs
  obtain ⟨hrest, hitems⟩ := h
  have h₁ := (Session.onward_past_one hs (by simp [hrest])).pastBlanks
  obtain ⟨hexact, hlaid⟩ := hitems.row honward hinner h₁.inside
  rw [h₁.source] at hexact
  exact Session.spans_closed hs honward' rfl (.inr (.inr rfl)) hexact
    (hlaid.mono (h₁.offset_le hs) (Int.le_refl _))

theorem Arguments.spans {node : Node} (h : inner.Arguments s node s') (hs : s.Inside) :
    s.Spans node s' := by
  cases h with
  | given hparen => exact hparen.spans honward hinner hs
  | missing =>
      have h₁ := Session.onward_note hs .invalidExpression
      exact Session.spans_closed hs h₁ rfl (.inl rfl) (by simp) (h₁.offset_le hs)

theorem Primary.spans {node : Node} (h : inner.Primary s node s') (hs : s.Inside) :
    s.Spans node s' := by
  have honward' := h.onward honward hs
  have hle := honward'.offset_le hs
  cases h with
  | exhausted => exact Session.spans_closed hs honward' rfl (.inl rfl) (by simp) hle
  | invalid => exact Session.spans_closed hs honward' rfl (.inl rfl) (by simp) hle
  | number => exact Session.spans_closed hs honward' rfl (.inr (.inl rfl)) (by simp) hle
  | list hparen => exact hparen.spans honward hinner hs
  | placeholder => exact Session.spans_closed hs honward' rfl (.inl rfl) (by simp) hle
  | @prefixed _ _ _ g hrest _ hoperand =>
      have h₁ := Session.onward_past_one hs (by simp [hrest])
      obtain ⟨hexact, hlaid, -, hbehind⟩ := item_spans honward hinner hoperand h₁.inside
      rw [h₁.source] at hexact hbehind
      exact Session.spans_closedAlong hs honward' rfl (by simp [Session.opened, Label.plain]) hexact
        (hlaid.mono (h₁.offset_le hs) (Int.le_refl _)) hbehind
  | call _ hmatch hgiven =>
      have h₁ :=
        (Session.onward_past_prefix hs (Token.Kind.prefix_of_match? hmatch)).pastBlanks
      obtain ⟨hexact, hlaid, -, hbehind⟩ := hgiven.spans honward hinner h₁.inside
      rw [h₁.source] at hexact hbehind
      exact Session.spans_closedAlong hs honward' rfl (Rule.functionKind_ne_infixOp _) hexact
        (hlaid.mono (h₁.offset_le hs) (Int.le_refl _)) hbehind

omit honward in
/-- An operand and what follows it: the operand stands in front of the others. -/
theorem Tail.covers {first : Node} {g : Grouping Node} {s₁ : Session}
    (h : inner.Tail s₁ first g s') (hfirst : s.Spans first s₁) (hs : s.Onward s₁) :
    s.Covers g s' := by
  cases h with
  | stop => exact hfirst.covers
  | @link _ _ link g hnext hright =>
      have h₁ := Session.onward_past_prefix hs.inside (Link.symbol_prefix_of_next? hnext)
      obtain ⟨hexact, hlaid, -, hbehind⟩ := hinner _ _ _ hright h₁.inside
      obtain ⟨hlo, hle, hhi⟩ := hfirst.laid
      have hoperands : (Grouping.settle link (.operand first) g).chain.operands =
          first :: g.chain.operands := by
        rw [Grouping.chain_settle]
        rfl
      rw [h₁.source, hs.source] at hexact hbehind
      refine ⟨?_, ?_, ?_, ?_⟩
      · rw [hoperands]
        exact List.forall_mem_cons.2 ⟨hfirst.exact, hexact⟩
      · rw [hoperands]
        exact ⟨hlo, hle, hlaid.mono (Int.le_trans hhi (h₁.offset_le hs.inside)) (Int.le_refl _)⟩
      · rw [Grouping.start_node, Grouping.chain_settle]
        exact hfirst.before
      · rw [Grouping.stop_settle]
        exact hbehind

end Reading

/-- **Whatever is read, its operands stand one behind the other** between the two ends of the
    reading, exact in all that hangs below them. -/
theorem Reads.covers {levels : Nat} {s s' : Session} {g : Grouping Node}
    (h : Reads levels s g s') (hs : s.Inside) : s.Covers g s' := by
  induction levels generalizing s g s' with
  | zero =>
      obtain ⟨rfl, rfl⟩ := h
      have h₁ := Session.onward_begin hs
      have h₂ := h₁.trans (Session.onward_abandon h₁.inside)
      have hnode : s.Spans (s.begin.abandon.closed (s.opened .expression) []) s.begin.abandon :=
        Session.spans_closed hs h₂ rfl (.inl rfl) (by simp) (h₂.offset_le hs)
      exact hnode.covers
  | succ levels ih =>
      obtain ⟨first, s₁, s₂, hprimary, htail, rfl⟩ := h
      have honward : ∀ s g s', Reads levels s g s' → s.Inside → s.Onward s' :=
        fun _ _ _ => Reads.onward
      have hinner : ∀ s g s', Reads levels s g s' → s.Inside → s.Covers g s' := fun _ _ _ => ih
      have h₁ := Session.onward_entered hs
      have h₂ := h₁.trans (hprimary.onward honward h₁.inside)
      -- the blanks in front of the first operand are in no node, those behind it neither
      have hblank : s.source.BlankBetween s.location.offset s.entered.location.offset :=
        Session.blankBetween_pastBlanks (s := s.begin.enter) hs
      have hfirst := (hprimary.spans honward hinner h₁.inside).after h₁ (h₁.offset_le hs) hblank
      obtain ⟨hexact, hlaid, hbefore, hbehind⟩ :=
        htail.covers hinner (hfirst.pastBlanks h₂) h₂.pastBlanks
      exact ⟨hexact, hlaid, hbefore, hbehind⟩

/-- The root stands between the start of the text and what is left over. -/
theorem Reads.spans_root {levels : Nat} {source : Text} {g : Grouping Node} {s' : Session}
    (h : Reads levels (Session.start source) g s') :
    (Session.start source).Spans (g.node s'.source) s'.pastBlanks := by
  have hs := Session.inside_start source
  have honward := h.onward hs
  rw [honward.source]
  exact (h.covers hs).spans.pastBlanks honward

/-- **Spans are exact.** Whatever problems a text has and whatever nesting limit it is read with, each
    node of its tree is exact. Before the root there are only blanks, and behind it up to what is
    left over, or to the end of the text where nothing is. -/
theorem parse_exact (limit : NestingLimit) (source : Text) :
    ∃ p, parse ⟨limit, Dialect.standard⟩ source = .ok p ∧
      (∀ node ∈ p.root.walk, node.Exact source) ∧
      (source.slice 0 p.root.span.start.offset).Blank ∧
      (∀ r ∈ p.reports, r.problem = .trailingCharacters →
        p.root.span.stop.offset ≤ r.location.offset ∧ r.location.offset ≤ source.length ∧
          (source.slice p.root.span.stop.offset r.location.offset).Blank) ∧
      ((∀ r ∈ p.reports, r.problem ≠ .trailingCharacters) →
        (source.slice p.root.span.stop.offset source.length).Blank) := by
  obtain ⟨g, s', hreads, hparse⟩ := exists_parse limit source
  have hs := Session.inside_start source
  have hinside : s'.pastBlanks.Inside := (hreads.onward hs).pastBlanks.inside
  have hsource : s'.pastBlanks.source = source := (hreads.onward hs).pastBlanks.source
  have hlength := hinside.offset_add_length
  rw [hsource] at hlength
  obtain ⟨hexact, ⟨hstart, hle, hstop⟩, hbefore, hbehind⟩ := hreads.spans_root
  generalize g.node s'.source = root at hparse hexact hstart hle hstop hbefore hbehind
  have hnonneg : 0 ≤ root.span.stop.offset := Int.le_trans hstart hle
  have hblank := hbehind.slice hnonneg hinside.1
  refine ⟨_, hparse, Node.forall_mem_walk.2 hexact, hbefore.slice (Int.le_refl 0) hstart, ?_, ?_⟩
  · intro r hr hproblem
    rcases Session.mem_reports_finished hr with hr | ⟨-, rfl⟩
    · rcases hreads.stretch.told hs r hr with hr | htold
      · cases hr
      · -- inside an expression nothing is left over
        exact absurd (hproblem ▸ htold.problem) (by decide)
    · exact ⟨hstop, hsource ▸ hinside.2, hblank⟩
  · intro hnone
    have hrest := Session.rest_of_not_trailing hnone
    have hend : s'.pastBlanks.location.offset = source.length := by simpa [hrest] using hlength
    rwa [hend] at hblank

end Reckoner
