import Reckoner.Proofs.Operands
import Reckoner.Proofs.Reports

/-!
# Malformed parts and their reports

Where nothing that can be read stands in a text there is an empty node in its tree and a report that
says so. The nodes are made by the rules and moved by regrouping, the reports are added one by one;
still they are the same places in the same order.

* `Node.visits` -- the nodes of a tree with the kind of the node above each, in the order of a walk;
* `Node.LeftOut` -- an empty node that is allowed where it stands: an item left out before a comma;
* `Node.flaws`, `Session.flaws` -- where the other empty nodes of a tree start, and where a session
  has reported a malformed or a given up part;
* `Reads.flaws` -- an expression adds as many of these reports as it has of these nodes, at the same
  places; `flaws_eq_reported` -- so the whole text has the same of both.
-/

namespace Reckoner

/-! ## 1. Nodes and what stands above them -/

namespace Node

instance (kind : Kind) : Decidable kind.IsFunction :=
  inferInstanceAs (Decidable (kind = .binaryFunction ∨ kind = .unaryFunction))

mutual

/-- Every node with the kind of the node above it, parents before their children. -/
def visits (above? : Option Kind) : Node → List (Option Kind × Node)
  | .mk label children => (above?, .mk label children) :: visitsAll label.kind children

/-- The same for the children of a node. -/
def visitsAll (above : Kind) : List Node → List (Option Kind × Node)
  | [] => []
  | node :: rest => visits (some above) node ++ visitsAll above rest

end

mutual

/-- The nodes come in the order of a walk. -/
theorem map_visits (above? : Option Kind) : ∀ n : Node, (n.visits above?).map (·.2) = n.walk
  | .mk label children => by
      rw [visits, List.map_cons, map_visitsAll label.kind children, walk_mk]

theorem map_visitsAll (above : Kind) :
    ∀ nodes : List Node, (visitsAll above nodes).map (·.2) = drain nodes
  | [] => by simp [visitsAll, drain]
  | node :: rest => by
      rw [visitsAll, List.map_append, map_visits (some above) node, map_visitsAll above rest,
        drain_cons]

end

theorem visitsAll_eq_flatMap (above : Kind) (nodes : List Node) :
    visitsAll above nodes = nodes.flatMap (visits (some above)) := by
  induction nodes with
  | nil => rfl
  | cons node rest ih => rw [visitsAll, ih, List.flatMap_cons]

/-! ## 2. Malformed parts of a tree -/

/-- Nothing at all in front of a comma, where an item may be left out. The arguments of a function
    may not. -/
def LeftOut (source : Text) (above? : Option Kind) (n : Node) : Prop :=
  n.span.start.offset = n.span.stop.offset ∧ (∀ kind ∈ above?, ¬ kind.IsFunction) ∧
    source.charAt? n.span.stop.offset = some ','

instance (source : Text) (above? : Option Kind) (n : Node) :
    Decidable (n.LeftOut source above?) :=
  inferInstanceAs (Decidable (_ ∧ _ ∧ _))

/-- An empty node that is not just left out. -/
def Malformed (source : Text) (above? : Option Kind) (n : Node) : Prop :=
  n.kind = .expression ∧ ¬ n.LeftOut source above?

instance (source : Text) (above? : Option Kind) (n : Node) :
    Decidable (n.Malformed source above?) :=
  inferInstanceAs (Decidable (_ ∧ _))

/-- Where the malformed parts of a tree start. -/
def flaws (source : Text) (above? : Option Kind) (n : Node) : List Int :=
  ((n.visits above?).filter fun visit => visit.2.Malformed source visit.1).map
    (·.2.span.start.offset)

variable {source : Text} {above? : Option Kind} {label : Label} {children : List Node}

theorem flaws_mk : (mk label children).flaws source above? =
    (if (mk label children).Malformed source above? then [label.span.start.offset] else []) ++
      children.flatMap (flaws source (some label.kind)) := by
  unfold flaws
  rw [visits, visitsAll_eq_flatMap, List.filter_cons, List.filter_flatMap]
  by_cases h : (mk label children).Malformed source above?
  · simp [h, List.map_flatMap, span]
  · simp [h, List.map_flatMap]

/-- A node that is not empty is as malformed as its children are together. -/
theorem flaws_of_ne_expression (h : label.kind ≠ .expression) :
    (mk label children).flaws source above? =
      children.flatMap (flaws source (some label.kind)) := by
  rw [flaws_mk, if_neg fun hempty => h hempty.1, List.nil_append]

/-- Only below a function it matters what stands above a node. -/
theorem flaws_eq_flaws_none {above : Kind} (h : ¬ above.IsFunction) (n : Node) :
    n.flaws source (some above) = n.flaws source none := by
  obtain ⟨label, children⟩ := n
  have hiff : (mk label children).Malformed source (some above) ↔
      (mk label children).Malformed source none := by
    simp [Malformed, LeftOut, h]
  rw [flaws_mk, flaws_mk, if_congr hiff rfl rfl]

/-- The children of lists and operators are looked at for themselves. -/
theorem flaws_of_list_or_operator (hkind : label.kind = .paren ∨ label.kind.IsOperator) :
    (mk label children).flaws source above? = children.flatMap (flaws source none) := by
  have hfunction : ¬ label.kind.IsFunction := by
    rcases hkind with hk | hk | hk <;> simp [hk, Kind.IsFunction]
  rw [flaws_of_ne_expression, funext (flaws_eq_flaws_none hfunction)]
  rcases hkind with hk | hk | hk <;> simp [hk]

/-- An empty node without children. -/
theorem flaws_empty (h : label.kind = .expression) : (mk label []).flaws source above? =
    if (mk label []).LeftOut source above? then [] else [label.span.start.offset] := by
  rw [flaws_mk, List.flatMap_nil, List.append_nil]
  by_cases hout : (mk label []).LeftOut source above?
  · rw [if_pos hout, if_neg fun hnot => hnot.2 hout]
  · rw [if_neg hout, if_pos ⟨h, hout⟩]

end Node

/-- Regrouping moves no malformed part in front of another one. -/
theorem Grouping.flaws_node (source source' : Text) (g : Grouping Node) :
    (g.node source').flaws source none = g.chain.operands.flatMap (Node.flaws source none) := by
  induction g with
  | operand p => exact (List.flatMap_singleton ..).symm
  | join link left right ihl ihr =>
      have hjoined : ∀ a b : Node, (Node.joined source' link a b).flaws source none =
          a.flaws source none ++ b.flaws source none := by
        intro a b
        rw [Node.joined, Node.flaws_of_list_or_operator (.inr (.inr rfl)), List.flatMap_cons,
          List.flatMap_singleton]
      rw [node, hjoined, ihl, ihr, chain, Chain.operands_append, List.flatMap_append]

/-! ## 3. Reports on malformed parts -/

/-- No expression starts at a place, or the text is given up there. -/
def Report.IsFlaw (r : Report) : Prop :=
  r.problem = .invalidExpression ∨ r.problem = .nestedTooDeeply

instance (r : Report) : Decidable r.IsFlaw :=
  inferInstanceAs (Decidable (_ ∨ _))

/-- Where malformed parts were reported. -/
def Report.flaws (reports : List Report) : List Int :=
  (reports.filter (·.IsFlaw)).map (·.location.offset)

namespace Session

/-- Where malformed parts were reported so far. -/
def flaws (s : Session) : List Int := Report.flaws s.reports

variable {s s' : Session}

theorem flaws_note (s : Session) {problem : Problem}
    (h : problem = .invalidExpression ∨ problem = .nestedTooDeeply) :
    (s.note problem).flaws = s.flaws ++ [s.location.offset] := by
  have hflaw : Report.IsFlaw ⟨problem, s.location⟩ := h
  simp [flaws, Report.flaws, note, hflaw]

theorem flaws_note_of_ne (s : Session) {problem : Problem}
    (h : ¬ (problem = .invalidExpression ∨ problem = .nestedTooDeeply)) :
    (s.note problem).flaws = s.flaws := by
  have hflaw : ¬ Report.IsFlaw ⟨problem, s.location⟩ := h
  simp [flaws, Report.flaws, note, hflaw]

theorem flaws_note_invalidInList (s : Session) : (s.note .invalidInList).flaws = s.flaws :=
  s.flaws_note_of_ne (by simp)

theorem flaws_abandon (h : s.abandoned = false) :
    s.abandon.flaws = s.flaws ++ [s.location.offset] := by
  have hreports : s.abandon.flaws = (s.note .nestedTooDeeply).flaws := by
    rw [flaws, reports_abandon, h]
    rfl
  rw [hreports, flaws_note s (.inr rfl)]

/-- The character at the cursor is the first one that is left. -/
theorem charAt?_offset (hs : s.Inside) : s.source.charAt? s.location.offset = s.rest.head? :=
  Cursor.Inside.current?_eq hs

/-- An empty node that takes some characters is not just left out, nor is one that takes none unless
    it stands in front of a comma. -/
theorem flaws_closed (hs : s.Inside)
    (h : s.location.offset = s'.location.offset → s.rest.head? ≠ some ',') :
    (s'.closed (s.opened .expression) []).flaws s.source none = [s.location.offset] := by
  have hout : ¬ (s'.closed (s.opened .expression) []).LeftOut s.source none := by
    rintro ⟨hwidth, -, hcomma⟩
    have hstop : s.location.offset = s'.location.offset := hwidth
    have hhere : s.source.charAt? s.location.offset = some ',' := hstop ▸ hcomma
    exact h hstop ((charAt?_offset hs).symm.trans hhere)
  exact (Node.flaws_empty rfl).trans (if_neg hout)

/-- What stands in front of a comma is left out. -/
theorem flaws_closed_comma (hs : s.Inside) (hrest : s.rest.head? = some ',') :
    (s.closed (s.opened .expression) []).flaws s.source none = [] := by
  have hout : (s.closed (s.opened .expression) []).LeftOut s.source none :=
    ⟨rfl, by simp, (charAt?_offset hs).trans hrest⟩
  exact (Node.flaws_empty rfl).trans (if_pos hout)

end Session

/-! ## 4. What is read -/

theorem Node.Kind.IsFunction.ne_expression {kind : Kind} (h : kind.IsFunction) :
    kind ≠ .expression := by
  rcases h with rfl | rfl <;> simp

theorem Rule.isFunction_functionKind (token : Token) : (functionKind token).IsFunction := by
  unfold functionKind
  split
  · exact .inl rfl
  · exact .inr rfl

namespace Reading

/-- An expression adds the reports on its malformed parts, in their order. -/
def Tells (inner : Reading) : Prop :=
  ∀ s g s', inner s g s' → s.Inside → s.abandoned = false →
    s'.flaws = s.flaws ++ (g.node s'.source).flaws s.source none

variable {inner : Reading} {s s₁ s' : Session}
  (hstretch : ∀ s g s', inner s g s' → s.Stretch s') (hinner : inner.Tells)

include hstretch hinner

/-- An item and what follows it in a list. -/
theorem items_flaws_cons {g : Grouping Node} {t : Session} {nodes : List Node}
    (hitem : inner s g s₁) (hs : s.Inside) (hspent : s.Spent) (hrest : s.rest ≠ [])
    (h₁ : s₁.Stretch t) (hsame : t.flaws = s₁.flaws)
    (ih : t.Inside → t.Spent → s'.flaws = t.flaws ++ nodes.flatMap (Node.flaws t.source none)) :
    s'.flaws = s.flaws ++ (g.node s₁.source :: nodes).flatMap (Node.flaws s.source none) := by
  have ht := (hstretch _ _ _ hitem).trans h₁
  have honward := Session.Stretch.onward ht hs
  have hlater := ih honward.inside (Session.Stretch.spent ht hs hspent)
  rw [honward.source, hsame] at hlater
  rw [List.flatMap_cons, ← List.append_assoc,
    ← hinner _ _ _ hitem hs (hspent.not_abandoned hrest)]
  exact hlater

theorem Items.flaws {nodes : List Node} (h : inner.Items s nodes s') (hs : s.Inside)
    (hspent : s.Spent) : s'.flaws = s.flaws ++ nodes.flatMap (Node.flaws s.source none) := by
  induction h with
  | givenUp => exact (List.append_nil _).symm
  | unclosed => exact (Session.flaws_note_invalidInList _).trans (List.append_nil _).symm
  | @comma s s₁ _ _ _ _ hrest hitem hnext _ ih =>
      have h₁ : s₁.Stretch (s₁.pastBlanks.past 1).pastBlanks :=
        .head (.pastBlanks _) (.head (.past_one hnext) (.single (.pastBlanks _)))
      exact items_flaws_cons hstretch hinner hitem hs hspent hrest h₁ rfl ih
  | @closed s s₁ _ _ hrest hitem hnext =>
      have h₁ : s₁.Stretch (s₁.pastBlanks.past 1) :=
        .head (.pastBlanks _) (.single (.past_one hnext))
      exact items_flaws_cons hstretch hinner hitem hs hspent hrest h₁ rfl
        fun _ _ => (List.append_nil _).symm
  | @junk s s₁ _ _ _ _ _ hrest hitem hnext _ _ _ ih =>
      have h₁ : s₁.Stretch ((s₁.pastBlanks.note .invalidInList).past 1) :=
        .head (.pastBlanks _) (.head (.misplaced hnext) (.single (.past_one hnext)))
      exact items_flaws_cons hstretch hinner hitem hs hspent hrest h₁
        (Session.flaws_note_invalidInList _) ih
  | ended hrest hitem _ _ ih =>
      exact items_flaws_cons hstretch hinner hitem hs hspent hrest (.single (.pastBlanks _)) rfl ih

theorem Paren.flaws {node : Node} (h : inner.Paren s node s') (hs : s.Inside)
    (habandoned : s.abandoned = false) (above? : Option Node.Kind) :
    s'.flaws = s.flaws ++ node.flaws s.source above? := by
  obtain ⟨hrest, hitems⟩ := h
  have h₁ := (Session.onward_past_one hs (by simp [hrest])).pastBlanks
  have hspent : (s.past 1).pastBlanks.Spent := fun hgiven =>
    absurd (habandoned.symm.trans hgiven) (by simp)
  have hall := hitems.flaws hstretch hinner h₁.inside hspent
  rw [h₁.source] at hall
  rw [Session.closed, Node.flaws_of_list_or_operator (.inl rfl)]
  exact hall

/-- What stands behind the name of a function: what is missing there is reported, also in front of a
    comma. -/
theorem Arguments.flaws {node : Node} {kind : Node.Kind} (hkind : kind.IsFunction)
    (h : inner.Arguments s node s') (hs : s.Inside) (habandoned : s.abandoned = false) :
    s'.flaws = s.flaws ++ node.flaws s.source (some kind) := by
  cases h with
  | given hparen => exact hparen.flaws hstretch hinner hs habandoned _
  | missing =>
      have hout : ¬ ((s.note .invalidExpression).closed (s.opened .expression) []).LeftOut s.source
          (some kind) := fun hout => hout.2.1 kind rfl hkind
      have hnode : ((s.note .invalidExpression).closed (s.opened .expression) []).flaws s.source
          (some kind) = [s.location.offset] := (Node.flaws_empty rfl).trans (if_neg hout)
      rw [hnode, Session.flaws_note s (.inl rfl)]

theorem Primary.flaws {node : Node} (h : inner.Primary s node s') (hs : s.Inside)
    (habandoned : s.abandoned = false) :
    s'.flaws = s.flaws ++ node.flaws s.source none := by
  cases h with
  | exhausted hrest =>
      have hnode : ((s.note .invalidExpression).closed (s.opened .expression) []).flaws s.source
          none = [s.location.offset] := Session.flaws_closed hs (by simp [hrest])
      rw [hnode, Session.flaws_note s (.inl rfl)]
  | invalid =>
      have hlt : s.location.offset < ((s.note .invalidExpression).past 1).location.offset :=
        Int.lt_succ s.location.offset
      rw [Session.flaws_closed hs fun heq => absurd heq (Int.ne_of_lt hlt)]
      exact Session.flaws_note s (.inl rfl)
  | number => exact (List.append_nil _).symm
  | list hparen => exact hparen.flaws hstretch hinner hs habandoned _
  | placeholder hrest =>
      rw [Session.flaws_closed_comma hs (by simp [hrest]), List.append_nil]
  | @prefixed _ sign _ g hrest _ hoperand =>
      have h₁ := Session.onward_past_one hs (by simp [hrest])
      have hall := hinner _ _ _ hoperand h₁.inside habandoned
      rw [h₁.source] at hall
      rw [Session.closedAlong, Node.flaws_of_list_or_operator (.inr (.inl rfl)),
        List.flatMap_singleton]
      exact hall
  | @call _ kind x node hkind hmatch hgiven =>
      have h₁ := (Session.onward_past_prefix hs (Token.Kind.prefix_of_match? hmatch)).pastBlanks
      have hfunction := Rule.isFunction_functionKind ⟨kind, x, s.location⟩
      have hall := hgiven.flaws hstretch hinner hfunction h₁.inside habandoned
      rw [h₁.source] at hall
      rw [Session.closedAlong, Node.flaws_of_ne_expression, List.flatMap_singleton]
      · exact hall
      · exact hfunction.ne_expression

omit hstretch in
/-- An operand and what follows it. -/
theorem Tail.flaws {first : Node} {g : Grouping Node} (h : inner.Tail s₁ first g s')
    (hs : s₁.Inside) (hspent : s₁.Spent)
    (hfirst : s₁.flaws = s.flaws ++ first.flaws s₁.source none) :
    s'.flaws = s.flaws ++ (g.node s'.source).flaws s₁.source none := by
  cases h with
  | stop => exact hfirst
  | @link _ _ link g hnext hright =>
      have hpre := Link.symbol_prefix_of_next? hnext
      have hrest : s₁.rest ≠ [] := fun hnil =>
        link.solid.1 (List.prefix_nil.1 (hnil ▸ hpre))
      have h₁ := Session.onward_past_prefix hs hpre
      have hall := hinner _ _ _ hright h₁.inside (hspent.not_abandoned hrest)
      have hflaws : (s₁.past link.symbol.length).flaws = s₁.flaws := rfl
      rw [h₁.source, hflaws, hfirst, Grouping.flaws_node] at hall
      rw [Grouping.flaws_node, Grouping.chain_settle]
      exact hall.trans (List.append_assoc ..)

end Reading

/-- **An expression adds a report for each malformed part of its tree**, at the same places in the
    same order. -/
theorem Reads.flaws (levels : Nat) : (Reads levels).Tells := by
  induction levels with
  | zero =>
      rintro s g s' ⟨rfl, rfl⟩ hs habandoned
      have h₁ := Session.onward_abandon (s := s.begin) hs
      have hend : s.begin.abandon.location.offset = s.source.length := by
        have hlength := h₁.inside.offset_add_length
        rwa [Session.rest_abandon (s := s.begin) hs, h₁.source, List.length_nil, Int.natCast_zero,
          Int.add_zero] at hlength
      have hnode : (s.begin.abandon.closed (s.opened .expression) []).flaws s.source none =
          [s.location.offset] := by
        refine Session.flaws_closed hs fun heq => ?_
        have hlength := hs.offset_add_length
        have hrest : s.rest = [] := List.eq_nil_of_length_eq_zero (by omega)
        simp [hrest]
      rw [Grouping.node, hnode]
      exact Session.flaws_abandon (s := s.begin) habandoned
  | succ levels ih =>
      rintro s g s' ⟨first, s₁, s₂, hprimary, htail, rfl⟩ hs habandoned
      have hstretch : ∀ s g s', Reads levels s g s' → s.Stretch s' := fun _ _ _ => Reads.stretch
      have h₁ := Session.onward_entered hs
      have hspent : s.entered.Spent := fun hgiven =>
        absurd (habandoned.symm.trans hgiven) (by simp)
      have h₂ := (hprimary.stretch hstretch).tail (.pastBlanks _)
      have hs₂ := Session.Stretch.onward h₂ h₁.inside
      have hfirst := hprimary.flaws hstretch ih h₁.inside habandoned
      rw [← hs₂.source] at hfirst
      have hall := htail.flaws ih hs₂.inside (Session.Stretch.spent h₂ h₁.inside hspent) hfirst
      rw [hs₂.source, h₁.source] at hall
      exact hall

/-! ## 5. Whole texts -/

/-- What is left over behind the whole expression is no malformed part of it. -/
theorem Session.flaws_finished (s : Session) : s.finished.flaws = s.flaws := by
  unfold Session.finished
  split
  · rfl
  · exact flaws_note_of_ne s.pastBlanks (by simp)

/-- **Each malformed part of a tree is reported once, and each of these reports has its part.** The
    empty nodes that are not just left out, in the order of a walk, start where the reports that no
    expression stands there or that the text is given up were made, in their order. -/
theorem flaws_eq_reported (limit : NestingLimit) (source : Text) :
    ∃ p, parse ⟨limit, Dialect.standard⟩ source = .ok p ∧
      (p.root.visits none).map (·.2) = p.root.walk ∧
      ((p.root.visits none).filter fun visit => visit.2.Malformed source visit.1).map
          (·.2.span.start.offset) =
        (p.reports.filter fun r => r.problem = .invalidExpression ∨ r.problem = .nestedTooDeeply).map
          (·.location.offset) := by
  obtain ⟨g, s', hreads, hparse⟩ := exists_parse limit source
  have htold := Reads.flaws _ _ _ _ hreads (Session.inside_start source) rfl
  refine ⟨_, hparse, Node.map_visits none _, ?_⟩
  exact (s'.flaws_finished.trans htold).symm

end Reckoner
