import Reckoner.Node.Rotation
import Reckoner.Proofs.Grouping
import Reckoner.Proofs.Throughout

/-!
# Groupings as trees

The node that an infix symbol makes of two operands is determined by the operands: it reaches from
the start of the first one to the end of the second one.

* `Node.joined` -- that node, `Grouping.node` -- the tree of a whole grouping;
* `Node.sequence`, `Node.Ordered` -- the operands and symbols of a tree in the order of the text,
  and whether its operators stand where their ranks say; both stop at nodes that are no infix nodes;
* `settle_joined` -- regrouping a tree is `Grouping.settle`, spans and texts included.
-/

namespace Reckoner

/-! ## 1. Infix nodes -/

/-- The label of an infix node between two places of a text. -/
def Label.joined (source : Text) (link : Link) (start stop : Location) : Label :=
  Label.refresh
    { Label.plain .infixOp ⟨start, stop⟩ with
      symbol? := some link.symbol, operator? := some link.name } source

/-- The infix node over two operands. -/
def Node.joined (source : Text) (link : Link) (first second : Node) : Node :=
  .mk (.joined source link first.span.start second.span.stop) [first, second]

/-- The tree of a grouping. -/
def Grouping.node (source : Text) : Grouping Node → Node
  | .operand p => p
  | .join link left right => .joined source link (left.node source) (right.node source)

@[simp] theorem Label.joined_isInfix (source : Text) (link : Link) (start stop : Location) :
    (Label.joined source link start stop).isInfix = true := rfl

@[simp] theorem Label.joined_symbol? (source : Text) (link : Link) (start stop : Location) :
    (Label.joined source link start stop).symbol? = some link.symbol := rfl

theorem Label.endAlong_joined (source : Text) (link : Link) (start stop : Location) (other : Span) :
    ((Label.joined source link start stop).endAlong other).refresh source =
      .joined source link start other.stop := rfl

theorem Label.startAlong_joined (source : Text) (link : Link) (start stop : Location)
    (other : Span) :
    ((Label.joined source link start stop).startAlong other).refresh source =
      .joined source link other.start stop := rfl

/-- The tree of a grouping starts where its first operand does. -/
theorem Grouping.start_node (source : Text) (g : Grouping Node) :
    (g.node source).span.start = g.chain.first.span.start := by
  induction g with
  | operand p => rfl
  | join link left right ihl _ => exact ihl

/-- A symbol that settles does not move the end of what it settles in. -/
theorem Grouping.stop_settle (source : Text) (link : Link) (p : Node) (g : Grouping Node) :
    ((settle link (.operand p) g).node source).span.stop = (g.node source).span.stop := by
  cases g with
  | operand q => rfl
  | join upper left right =>
      unfold settle
      split <;> rfl

/-- What holds of infix nodes and throughout the operands of a grouping holds throughout its tree. -/
theorem Grouping.throughout_node {P : Node → Prop} {source : Text} {g : Grouping Node}
    (hjoin : ∀ n : Node, n.kind = .infixOp → P n)
    (h : ∀ p ∈ g.chain.operands, p.Throughout P) : (g.node source).Throughout P := by
  induction g with
  | operand p => exact h p List.mem_cons_self
  | join link left right ihl ihr =>
      simp only [chain, Chain.operands_append] at h
      obtain ⟨hl, hr⟩ := List.forall_mem_append.1 h
      exact .node (hjoin _ rfl) (by simp [node, Node.joined, ihl hl, ihr hr])

/-! ## 2. Reading a tree off again -/

namespace Node

/-- An operand or a symbol. -/
inductive Piece where
  | operand (node : Node)
  | symbol (symbol? : Option Text)

/-- The operands and the infix symbols between them, in the order of the text. -/
def sequence : Node → List Piece
  | .mk label [first, second] =>
      if label.isInfix then first.sequence ++ .symbol label.symbol? :: second.sequence
      else [.operand (.mk label [first, second])]
  | node => [.operand node]

/-- The rank of an infix node. -/
def rank? (node : Node) : Option Nat :=
  if node.label.isInfix then node.label.symbol?.bind Dialect.standard.rank? else none

/-- At every infix node down to the operands, an infix node to the left binds at least as tight and
    an infix node to the right binds tighter. -/
def Ordered : Node → Prop
  | .mk label [first, second] =>
      label.isInfix = true →
        ∀ n ∈ label.symbol?.bind Dialect.standard.rank?,
          (∀ r ∈ first.rank?, n ≤ r) ∧ (∀ r ∈ second.rank?, n < r) ∧
            first.Ordered ∧ second.Ordered
  | _ => True

theorem sequence_of_ne_infixOp {node : Node} (h : node.kind ≠ .infixOp) :
    node.sequence = [.operand node] := by
  obtain ⟨label, children⟩ := node
  have hl : label.isInfix = false := by simpa [Label.isInfix, kind] using h
  unfold sequence
  split
  · rename_i first second he
    obtain ⟨rfl, rfl⟩ : label = _ ∧ children = _ := by simpa using he
    simp [hl]
  · rfl

theorem rank?_of_ne_infixOp {node : Node} (h : node.kind ≠ .infixOp) : node.rank? = none := by
  have hl : node.label.isInfix = false := by simpa [Label.isInfix, kind] using h
  simp [rank?, hl]

theorem ordered_of_ne_infixOp {node : Node} (h : node.kind ≠ .infixOp) : node.Ordered := by
  obtain ⟨label, children⟩ := node
  have hl : label.isInfix = false := by simpa [Label.isInfix, kind] using h
  unfold Ordered
  split
  · rename_i first second he
    obtain ⟨rfl, rfl⟩ : label = _ ∧ children = _ := by simpa using he
    simp [hl]
  · trivial

end Node

/-- The pieces of a chain. -/
def Chain.sequence (c : Chain Node) : List Node.Piece :=
  .operand c.first :: c.rest.flatMap fun step => [.symbol (some step.1.symbol), .operand step.2]

theorem Chain.sequence_append (a b : Chain Node) (link : Link) :
    (a.append link b).sequence = a.sequence ++ .symbol (some link.symbol) :: b.sequence := by
  simp [sequence, append]

namespace Grouping

/-- None of the operands is an infix node itself. -/
def Maximal (g : Grouping Node) : Prop := ∀ p ∈ g.chain.operands, p.kind ≠ .infixOp

theorem maximal_join {link : Link} {left right : Grouping Node} :
    (join link left right).Maximal ↔ left.Maximal ∧ right.Maximal := by
  simp only [Maximal, chain, Chain.operands_append, List.mem_append]
  exact ⟨fun h => ⟨fun p hp => h p (.inl hp), fun p hp => h p (.inr hp)⟩,
    fun h p hp => hp.elim (h.1 p) (h.2 p)⟩

theorem maximal_operand {p : Node} : (operand p).Maximal ↔ p.kind ≠ .infixOp := by
  simp [Maximal, chain, Chain.single, Chain.operands]

theorem maximal_settle {link : Link} {p : Node} {g : Grouping Node}
    (hp : p.kind ≠ .infixOp) (hg : g.Maximal) : (settle link (.operand p) g).Maximal := by
  unfold Maximal at hg ⊢
  rw [chain_settle]
  simp only [Chain.cons, Chain.operands, List.map_cons, List.forall_mem_cons] at hg ⊢
  exact ⟨hp, hg⟩

/-- The tree of a grouping has the pieces of its chain. -/
theorem sequence_node (source : Text) {g : Grouping Node} (hg : g.Maximal) :
    (g.node source).sequence = g.chain.sequence := by
  induction g with
  | operand p => exact Node.sequence_of_ne_infixOp (maximal_operand.1 hg)
  | join link left right ihl ihr =>
      obtain ⟨hl, hr⟩ := maximal_join.1 hg
      simp [node, Node.joined, Node.sequence, chain, Chain.sequence_append, ihl hl, ihr hr]

theorem rank?_node (source : Text) {g : Grouping Node} (hg : g.Maximal) :
    (g.node source).rank? = g.rank? := by
  cases g with
  | operand p => exact Node.rank?_of_ne_infixOp (maximal_operand.1 hg)
  | join link left right =>
      simp [node, Node.joined, Node.rank?, rank?, Link.rank?_symbol]

theorem ordered_node (source : Text) {g : Grouping Node} (hg : g.Maximal) (ho : g.Ordered) :
    (g.node source).Ordered := by
  induction g with
  | operand p => exact Node.ordered_of_ne_infixOp (maximal_operand.1 hg)
  | join link left right ihl ihr =>
      obtain ⟨hl, hr⟩ := maximal_join.1 hg
      obtain ⟨hbl, hbr, hol, hor⟩ := ho
      intro _ n hn
      obtain rfl : link.rank = n := by simpa [Link.rank?_symbol] using hn
      rw [rank?_node source hl, rank?_node source hr]
      exact ⟨hbl, hbr, ihl hl hol, ihr hr hor⟩

end Grouping

/-! ## 3. Regrouping -/

/-- A symbol that has its rank in a table. -/
theorem Node.rankOf_symbol {rank? : Text → Option Nat} {link : Link}
    (hrank : rank? link.symbol = some link.rank) :
    Node.rankOf rank? (some link.symbol) = .ok link.rank := by
  simp [Node.rankOf, hrank]

/-- **Settling an infix label into the tree of a grouping gives the tree of the settled grouping**,
    with every span and text on the way brought up to date. No more than the ranks of these symbols
    is asked for. -/
theorem settle_joined {rank? : Text → Option Nat} (source : Text) {link : Link} (first : Node)
    {g : Grouping Node} (hg : g.Maximal) (hlink : rank? link.symbol = some link.rank)
    (hranks : ∀ step ∈ g.chain.rest, rank? step.1.symbol = some step.1.rank) :
    Node.settle rank? source
        (.joined source link first.span.start (g.node source).span.stop) first (g.node source) =
      .ok ((Grouping.settle link (.operand first) g).node source) := by
  induction g with
  | operand p =>
      obtain ⟨label, children⟩ := p
      have hk : label.kind ≠ .infixOp := Grouping.maximal_operand.1 hg
      unfold Node.settle
      simp [Grouping.node, Grouping.settle, Node.joined, hk]
  | join upper left right ihl _ =>
      rw [Grouping.chain, Chain.append, List.forall_mem_append, List.forall_mem_cons] at hranks
      obtain ⟨hleft, hupper, -⟩ := hranks
      have ih := ihl (Grouping.maximal_join.1 hg).1 hleft
      simp only [Grouping.node, Node.joined, Node.settle, Grouping.settle, Label.joined_symbol?,
        Node.rankOf_symbol hlink, Node.rankOf_symbol hupper]
      rw [if_neg (by simp [Label.joined, Label.refresh, Label.plain])]
      split
      · rfl
      · rw [Label.endAlong_joined, ih]
        simp only [Label.startAlong_joined, Grouping.node, Node.joined, Grouping.start_node,
          Grouping.chain_settle]
        rfl

/-- Rotating an infix node over the tree of a grouping settles its label. -/
theorem rotate_joined (source : Text) (link : Link) (first : Node) {g : Grouping Node}
    (hg : g.Maximal) :
    (Node.joined source link first (g.node source)).rotate Dialect.standard.rank? source =
      .ok ((Grouping.settle link (.operand first) g).node source) :=
  settle_joined source first hg link.rank?_symbol fun step _ => step.1.rank?_symbol

end Reckoner
