import Reckoner.Proofs.Shape
import Reckoner.Proofs.Throughout

/-!
# Rotation on any tree

The parser rotates an infix node right after it has read the operands. Rotation itself needs no
parser: any infix node over two ordered trees is repaired, whatever symbols it has and whether or
not its spans are those of a text, and only the nodes on the way down are touched.

* `Node.InRank` -- an infix node has two operands, and they bind as their places ask;
* `Node.spine`, `Node.hanging` -- the infix nodes down the left of a tree and what hangs off them;
* `Settles` -- the way of a label down the left of its second operand; `exists_settles` -- such a
  way exists and `Node.settle` takes it;
* `Settles.inRank`, `Settles.sequence`, `Settles.walk`, `Settles.fits` -- what is kept on that way;
* `rotate_repairs` -- so rotation gives an ordered tree of the same operands, symbols and nodes.
-/

namespace Reckoner

/-! ## 1. Ordered trees -/

namespace Node

/-- An infix node has a rank and two operands; if they are infix nodes, the first one binds at least
    as tight and the second one binds tighter. -/
def InRank (n : Node) : Prop :=
  n.kind = .infixOp → ∃ first second rank, n.children = [first, second] ∧ n.rank? = some rank ∧
    (∀ r ∈ first.rank?, rank ≤ r) ∧ ∀ r ∈ second.rank?, rank < r

/-- The infix nodes from a tree down along their first operands. -/
def spine : Node → List Node
  | .mk label children =>
      if label.isInfix then
        match children with
        | [] => [.mk label []]
        | first :: others => .mk label (first :: others) :: first.spine
      else []

/-- What hangs off these nodes, in the order of the text. -/
def hanging : Node → List Node
  | .mk label children =>
      if label.isInfix then
        match children with
        | [] => []
        | first :: others => first.hanging ++ others
      else [.mk label children]

variable {label : Label} {first second : Node} {children : List Node} {rank : Nat}

theorem kind_of_rank? {n : Node} (h : n.rank? = some rank) : n.kind = .infixOp := by
  by_contra hkind
  rw [rank?_of_ne_infixOp hkind] at h
  cases h

theorem isInfix_of_rank? (h : (mk label children).rank? = some rank) : label.isInfix = true := by
  simpa [Label.isInfix, kind] using kind_of_rank? h

theorem symbol_of_rank? (h : (mk label children).rank? = some rank) :
    label.symbol?.bind Dialect.standard.rank? = some rank := by
  have hinfix := isInfix_of_rank? h
  rwa [rank?, label_mk, if_pos hinfix] at h

theorem spine_mk (h : label.isInfix = true) :
    (mk label [first, second]).spine = .mk label [first, second] :: first.spine := by
  rw [spine, if_pos h]

theorem hanging_mk (h : label.isInfix = true) :
    (mk label [first, second]).hanging = first.hanging ++ [second] := by
  rw [hanging, if_pos h]

theorem sequence_mk (h : label.isInfix = true) : (mk label [first, second]).sequence =
    first.sequence ++ .symbol label.symbol? :: second.sequence := by
  rw [sequence, if_pos h]

theorem spine_of_ne_infixOp {n : Node} (h : n.kind ≠ .infixOp) : n.spine = [] := by
  obtain ⟨label, children⟩ := n
  have hl : label.isInfix = false := by simpa [Label.isInfix, kind] using h
  cases children <;> simp [spine, hl]

theorem hanging_of_ne_infixOp {n : Node} (h : n.kind ≠ .infixOp) : n.hanging = [n] := by
  obtain ⟨label, children⟩ := n
  have hl : label.isInfix = false := by simpa [Label.isInfix, kind] using h
  cases children <;> simp [hanging, hl]

/-- Closed at another place an infix label is the same apart from that place. -/
theorem shape_refresh (h : label.isInfix = true) (span : Span) (source : Text) :
    (Label.refresh { label with span := span } source).shape = label.shape := by
  have hkind : label.kind = .infixOp := by simpa [Label.isInfix] using h
  simp [Label.shape, Label.refresh, hkind]

/-- A tree is its spine and the trees that hang off it. -/
theorem walk_perm {n : Node} (h : n.Throughout InRank) :
    n.walk.Perm (n.spine ++ drain n.hanging) := by
  induction h with
  | @node n here _ ih =>
      by_cases hkind : n.kind = .infixOp
      · obtain ⟨first, second, rank, hchildren, hrank, -⟩ := here hkind
        obtain ⟨label, children⟩ := n
        obtain rfl : children = [first, second] := hchildren
        have hfirst := ih first List.mem_cons_self
        have hinfix := isInfix_of_rank? hrank
        rw [spine_mk hinfix, hanging_mk hinfix, walk_mk, drain_cons, drain_append,
          List.cons_append, ← List.append_assoc]
        exact (hfirst.append_right _).cons _
      · rw [spine_of_ne_infixOp hkind, hanging_of_ne_infixOp hkind]
        exact .refl _

/-- The same for a node over two operands, of which only the second one is taken apart. -/
theorem walk_pair (label : Label) (first : Node) (hsecond : second.Throughout InRank) :
    (mk label [first, second]).walk.Perm
      (mk label [first, second] :: second.spine ++ drain (first :: second.hanging)) := by
  have hpair : drain [first, second] = first.walk ++ second.walk := by
    rw [drain_cons, walk, walk]
  rw [walk_mk, hpair, drain_cons]
  refine List.Perm.cons _ ?_
  exact ((walk_perm hsecond).append_left _).trans (List.perm_append_comm_assoc _ _ _)

end Node

/-! ## 2. The way down -/

/-- A label of some rank sinks into its second operand along the first operands there, as long as
    the symbols met bind no tighter, and the nodes on the way are closed again. -/
inductive Settles (source : Text) (own : Nat) : Label → Node → Node → Node → Prop where
  /-- The second operand binds tighter or is no infix node. -/
  | stays {label : Label} {first second : Node} (htight : ∀ r ∈ second.rank?, own < r) :
      Settles source own label first second (.mk label [first, second])
  /-- The label takes the place of the first operand in the second one. -/
  | sinks {label upper : Label} {first middle other lowered : Node} {met : Nat}
      (hmet : (Node.mk upper [middle, other]).rank? = some met) (hloose : met ≤ own)
      (h : Settles source own ((label.endAlong middle.span).refresh source) first middle lowered) :
      Settles source own label first (.mk upper [middle, other])
        (.mk ((upper.startAlong first.span).refresh source) [lowered, other])

theorem exists_settles (source : Text) {own : Nat} {label : Label} (first : Node) {second : Node}
    (hown : label.symbol?.bind Dialect.standard.rank? = some own)
    (hsecond : second.Throughout Node.InRank) : ∃ n,
      Node.settle Dialect.standard.rank? source label first second = .ok n ∧
        Settles source own label first second n := by
  induction hsecond generalizing label with
  | @node second here _ ih =>
      obtain ⟨upper, operands⟩ := second
      have howns : Node.rankOf Dialect.standard.rank? label.symbol? = .ok own := by
        rw [Node.rankOf, hown]
      unfold Node.settle
      by_cases hkind : upper.kind = .infixOp
      · obtain ⟨middle, other, met, hchildren, hmet, -⟩ := here hkind
        obtain rfl : operands = [middle, other] := hchildren
        have hmets : Node.rankOf Dialect.standard.rank? upper.symbol? = .ok met := by
          rw [Node.rankOf, Node.symbol_of_rank? hmet]
        simp only [hkind, howns, hmets]
        by_cases hlt : own < met
        · refine ⟨_, if_pos hlt, .stays fun r hr => ?_⟩
          obtain rfl := Option.mem_unique hr hmet
          exact hlt
        · have hsunk : ((label.endAlong middle.span).refresh source).symbol?.bind
              Dialect.standard.rank? = some own := hown
          obtain ⟨lowered, hsettle, hway⟩ := ih middle List.mem_cons_self hsunk
          refine ⟨_, ?_, .sinks hmet (Nat.not_lt.1 hlt) hway⟩
          simp [hlt, hsettle]
      · have hnone : (Node.mk upper operands).rank? = none := Node.rank?_of_ne_infixOp hkind
        exact ⟨_, if_pos hkind, .stays (by simp [hnone])⟩

/-! ## 3. What is kept on the way down -/

/-- The node covers what its text says, its children stand in it in order, and an infix node reaches
    from the start of its first operand to the end of its second one. -/
structure Node.Fits (source : Text) (n : Node) : Prop where
  start_le_stop : n.span.start.offset ≤ n.span.stop.offset
  text : n.text = n.span.cut source
  inOrder : n.children.Pairwise fun a b => a.span.stop.offset ≤ b.span.start.offset
  joined : n.kind = .infixOp → ∀ first second, n.children = [first, second] →
    n.span = ⟨first.span.start, second.span.stop⟩

/-- A node that is closed over two operands fits if they do. -/
theorem Node.fits_pair {source : Text} {label : Label} {first second : Node}
    (hspan : label.span = ⟨first.span.start, second.span.stop⟩)
    (hfirst : first.Throughout (Fits source)) (hsecond : second.Throughout (Fits source))
    (hmeet : first.span.stop.offset ≤ second.span.start.offset) :
    (mk (label.refresh source) [first, second]).Throughout (Fits source) := by
  have hplace : (mk (label.refresh source) [first, second]).span =
      ⟨first.span.start, second.span.stop⟩ := hspan
  refine .node ⟨?_, rfl, List.pairwise_pair.2 hmeet, ?_⟩ ?_
  · rw [hplace]
    exact Int.le_trans hfirst.self.start_le_stop (Int.le_trans hmeet hsecond.self.start_le_stop)
  · intro _ a b hchildren
    obtain ⟨rfl, rfl⟩ : first = a ∧ second = b := by simpa using hchildren
    exact hplace
  · exact List.forall_mem_cons.2 ⟨hfirst, List.forall_mem_singleton.2 hsecond⟩

namespace Settles

variable {source : Text} {own : Nat} {label : Label} {first second n : Node}
  (h : Settles source own label first second n)
  (hown : (Node.mk label [first, second]).rank? = some own)

include h hown

/-- The result binds as tight as the label or as the second operand. -/
theorem rank : ∀ r ∈ n.rank?, r = own ∨ r ∈ second.rank? := by
  cases h with
  | stays => exact fun r hr => .inl (Option.mem_unique hr hown)
  | sinks => exact fun r hr => .inr hr

theorem kind : n.kind = .infixOp := by
  cases h with
  | stays => exact Node.kind_of_rank? hown
  | sinks hmet => exact Node.kind_of_rank? hmet

/-- Operands in order give a tree in order. -/
theorem inRank (hfirst : first.Throughout Node.InRank) (hle : ∀ r ∈ first.rank?, own ≤ r)
    (hsecond : second.Throughout Node.InRank) : n.Throughout Node.InRank := by
  induction h with
  | @stays label first second htight =>
      refine .node (fun _ => ⟨first, second, own, rfl, hown, hle, htight⟩) ?_
      exact List.forall_mem_cons.2 ⟨hfirst, List.forall_mem_singleton.2 hsecond⟩
  | @sinks label upper first middle other lowered met hmet hloose hway ih =>
      obtain ⟨_, _, _, hchildren, hrank, hmiddle, hother⟩ :=
        hsecond.self (Node.kind_of_rank? hmet)
      obtain ⟨rfl, rfl⟩ : middle = _ ∧ other = _ := by simpa using hchildren
      obtain rfl := Option.mem_unique hrank hmet
      have hlowered := ih hown hfirst hle (hsecond.children middle List.mem_cons_self)
      -- the lowered node binds as tight as the label or as what stood in its place before
      have hleft : ∀ r ∈ lowered.rank?, _ ≤ r := fun r hr => (hway.rank hown r hr).elim
        (fun heq => heq ▸ hloose) (hmiddle r)
      refine .node (fun _ => ⟨lowered, other, _, rfl, hmet, hleft, hother⟩) ?_
      exact List.forall_mem_cons.2 ⟨hlowered, List.forall_mem_singleton.2
        (hsecond.children other (by simp))⟩

/-- The operands and symbols stay in the order of the text. -/
theorem sequence : n.sequence = first.sequence ++ .symbol label.symbol? :: second.sequence := by
  induction h with
  | stays => exact Node.sequence_mk (Node.isInfix_of_rank? hown)
  | @sinks label upper first middle other lowered met hmet _ _ ih =>
      have hupper := Node.isInfix_of_rank? hmet
      have hsecond : (Node.mk upper [middle, other]).sequence =
          middle.sequence ++ .symbol upper.symbol? :: other.sequence := Node.sequence_mk hupper
      rw [Node.sequence_mk (by exact hupper), ih hown, hsecond, List.append_assoc]
      rfl

/-- The nodes are those that there were, with new operands for the label and the spine alone. -/
theorem walk (hsecond : second.Throughout Node.InRank) : ∃ lowered raised,
    lowered.label.shape = label.shape ∧
      raised.map (·.label.shape) = second.spine.map (·.label.shape) ∧
        n.walk.Perm (lowered :: raised ++ Node.drain (first :: second.hanging)) := by
  induction h with
  | @stays label first second =>
      exact ⟨.mk label [first, second], second.spine, rfl, rfl, Node.walk_pair label first hsecond⟩
  | @sinks label upper first middle other lowered met hmet _ _ ih =>
      obtain ⟨moved, raised, hmoved, hraised, hperm⟩ :=
        ih hown (hsecond.children middle List.mem_cons_self)
      have hupper := Node.isInfix_of_rank? hmet
      have hlabel := Node.isInfix_of_rank? hown
      have hsunk : ((label.endAlong middle.span).refresh source).shape = label.shape :=
        Node.shape_refresh hlabel ⟨label.span.start, middle.span.stop⟩ source
      have hraise : ((upper.startAlong first.span).refresh source).shape = upper.shape :=
        Node.shape_refresh hupper ⟨first.span.start, upper.span.stop⟩ source
      refine ⟨moved, .mk ((upper.startAlong first.span).refresh source) [lowered, other] :: raised,
        hmoved.trans hsunk, ?_, ?_⟩
      · rw [Node.spine_mk hupper, List.map_cons, List.map_cons, hraised]
        exact congrArg (· :: _) hraise
      · have hdrain : Node.drain (first :: (middle.hanging ++ [other])) =
            Node.drain (first :: middle.hanging) ++ Node.drain [other] :=
          Node.drain_append (first :: middle.hanging) [other]
        rw [Node.walk_mk, Node.drain_cons, Node.hanging_mk hupper, hdrain, ← List.append_assoc]
        exact ((hperm.append_right _).cons _).trans (.swap ..)

/-- Where the spans fit, they still do, and the whole keeps its place. -/
theorem fits (hfits : (Node.mk label [first, second]).Throughout (Node.Fits source)) :
    n.Throughout (Node.Fits source) ∧ n.span = ⟨first.span.start, second.span.stop⟩ := by
  induction h with
  | stays => exact ⟨hfits, hfits.self.joined (Node.kind_of_rank? hown) _ _ rfl⟩
  | @sinks label upper first middle other lowered met hmet _ _ ih =>
      have hfirst := hfits.children first List.mem_cons_self
      have hsecond := hfits.children (.mk upper [middle, other]) (by simp)
      have hmiddle := hsecond.children middle List.mem_cons_self
      have hother := hsecond.children other (by simp)
      have hspan : label.span = ⟨first.span.start, upper.span.stop⟩ :=
        hfits.self.joined (Node.kind_of_rank? hown) _ _ rfl
      have hspan' : upper.span = ⟨middle.span.start, other.span.stop⟩ :=
        hsecond.self.joined (Node.kind_of_rank? hmet) _ _ rfl
      have hmeet := (List.pairwise_pair.1 hfits.self.inOrder)
      have hmeet' := (List.pairwise_pair.1 hsecond.self.inOrder)
      have hpair : (Node.mk ((label.endAlong middle.span).refresh source)
          [first, middle]).Throughout (Node.Fits source) := by
        refine Node.fits_pair ?_ hfirst hmiddle ?_
        · simp [Label.endAlong, hspan]
        · simpa [Node.span, hspan'] using hmeet
      obtain ⟨hlowered, hplace⟩ := ih hown hpair
      refine ⟨Node.fits_pair ?_ hlowered hother ?_, rfl⟩
      · simp [Label.startAlong, hplace, hspan']
      · simpa [hplace] using hmeet'

end Settles

/-! ## 4. Rotation -/

/-- An ordered infix node is left as it is. -/
theorem rotate_of_inRank (source : Text) {n : Node} (h : n.Throughout Node.InRank)
    (hkind : n.kind = .infixOp) : n.rotate Dialect.standard.rank? source = .ok n := by
  obtain ⟨first, second, own, hchildren, hown, -, htight⟩ := h.self hkind
  obtain ⟨label, children⟩ := n
  obtain rfl : children = [first, second] := hchildren
  obtain ⟨n, hsettle, hway⟩ := exists_settles source first (Node.symbol_of_rank? hown)
    (h.children second (by simp))
  cases hway with
  | stays => exact hsettle
  | sinks hmet hloose => exact absurd (htight _ hmet) (Nat.not_lt.2 hloose)

/-- **Rotation repairs any infix node over ordered operands and touches only the way down.** Under
    an infix node whose first operand does not bind looser there may be any ordered second operand.
    The result is ordered and has the operands and symbols in the same order, and rotating it again
    leaves it as it is. Of the nodes only the one that is rotated and the spine of its second
    operand may get other operands or another place; all others are found in the result as they
    were. If the spans fit the text, those of the result do. -/
theorem rotate_repairs (source : Text) {n first second : Node} {own : Nat}
    (hchildren : n.children = [first, second]) (hown : n.rank? = some own)
    (hfirst : ∀ m ∈ first.walk, m.InRank) (hsecond : ∀ m ∈ second.walk, m.InRank)
    (hle : ∀ r ∈ first.rank?, own ≤ r) :
    ∃ n', n.rotate Dialect.standard.rank? source = .ok n' ∧
      (∀ m ∈ n'.walk, m.InRank) ∧
      n'.sequence = n.sequence ∧
      n'.rotate Dialect.standard.rank? source = .ok n' ∧
      (∃ moved, moved.map (·.label.shape) = (n :: second.spine).map (·.label.shape) ∧
        n.walk.Perm (n :: second.spine ++ Node.drain (first :: second.hanging)) ∧
        n'.walk.Perm (moved ++ Node.drain (first :: second.hanging))) ∧
      ((∀ m ∈ n.walk, m.Fits source) → ∀ m ∈ n'.walk, m.Fits source) := by
  obtain ⟨label, children⟩ := n
  obtain rfl : children = [first, second] := hchildren
  rw [Node.forall_mem_walk] at hfirst hsecond
  obtain ⟨n', hsettle, hway⟩ := exists_settles source first (Node.symbol_of_rank? hown) hsecond
  have hinRank := hway.inRank hown hfirst hle hsecond
  obtain ⟨lowered, raised, hlowered, hraised, hperm⟩ := hway.walk hown hsecond
  refine ⟨n', hsettle, Node.forall_mem_walk.2 hinRank, ?_,
    rotate_of_inRank source hinRank (hway.kind hown), ⟨lowered :: raised, ?_, ?_, hperm⟩, ?_⟩
  · rw [hway.sequence hown, Node.sequence_mk (Node.isInfix_of_rank? hown)]
  · rw [List.map_cons, List.map_cons, hraised]
    exact congrArg (· :: _) hlowered
  · exact Node.walk_pair label first hsecond
  · intro hfits
    exact Node.forall_mem_walk.2 (hway.fits hown (Node.forall_mem_walk.1 hfits)).1

/-- A digit on the first line of a text. -/
def Node.digit (source : Text) (i : Int) : Node :=
  .mk (Label.refresh (.plain .number ⟨⟨1, i + 1, i⟩, ⟨1, i + 2, i + 1⟩⟩) source) []

/-- An infix node over two operands, with any symbol. -/
def Node.over (source symbol : Text) (first second : Node) : Node :=
  .mk (Label.refresh
    { Label.plain .infixOp ⟨first.span.start, second.span.stop⟩ with
      symbol? := some symbol } source) [first, second]

/-- A factorial sign, which the parser never makes an infix node of, over a digit and a sum. -/
theorem rotate_repairs_factorial : ∃ n',
    (Node.over "1!2+3".toList ['!'] (.digit "1!2+3".toList 0)
        (.over "1!2+3".toList ['+'] (.digit "1!2+3".toList 2) (.digit "1!2+3".toList 4))).rotate
      Dialect.standard.rank? "1!2+3".toList = .ok n' ∧
    (∀ m ∈ n'.walk, m.InRank) ∧ (∀ m ∈ n'.walk, m.Fits "1!2+3".toList) ∧
      n'.sequence = [.operand (.digit "1!2+3".toList 0), .symbol (some ['!']),
        .operand (.digit "1!2+3".toList 2), .symbol (some ['+']),
        .operand (.digit "1!2+3".toList 4)] := by
  generalize "1!2+3".toList = source
  have hnumber : ∀ i, (Node.digit source i).kind ≠ .infixOp := fun i => by
    simp [Node.digit, Node.kind, Label.refresh, Label.plain]
  have hdigit : ∀ i, (Node.digit source i).Throughout Node.InRank := fun i =>
    .node (fun hkind => absurd hkind (hnumber i)) (List.forall_mem_nil _)
  have hplace : ∀ i, (Node.digit source i).Throughout (Node.Fits source) := fun i =>
    .node ⟨Int.le_of_lt (Int.lt_succ i), rfl, .nil, fun hkind => absurd hkind (hnumber i)⟩
      (List.forall_mem_nil _)
  have hloose : ∀ i (P : Nat → Prop), ∀ r ∈ (Node.digit source i).rank?, P r := fun i P r hr => by
    rw [Node.rank?_of_ne_infixOp (hnumber i)] at hr
    cases hr
  have hsum : (Node.over source ['+'] (.digit source 2) (.digit source 4)).Throughout
      Node.InRank := by
    refine .node (fun _ => ⟨_, _, 0, rfl, rfl, hloose 2 _, hloose 4 _⟩) ?_
    exact List.forall_mem_cons.2 ⟨hdigit 2, List.forall_mem_singleton.2 (hdigit 4)⟩
  have hsumFits : (Node.over source ['+'] (.digit source 2) (.digit source 4)).Throughout
      (Node.Fits source) :=
    Node.fits_pair rfl (hplace 2) (hplace 4) (by show (2 + 1 : Int) ≤ 4; decide)
  have hfits : (Node.over source ['!'] (.digit source 0)
      (.over source ['+'] (.digit source 2) (.digit source 4))).Throughout (Node.Fits source) :=
    Node.fits_pair rfl (hplace 0) hsumFits (by show (0 + 1 : Int) ≤ 2; decide)
  have hown : (Node.over source ['!'] (.digit source 0)
      (.over source ['+'] (.digit source 2) (.digit source 4))).rank? = some 9 := rfl
  obtain ⟨n', hrotate, hinRank, hsequence, -, -, hspans⟩ := rotate_repairs source rfl hown
    (Node.forall_mem_walk.2 (hdigit 0)) (Node.forall_mem_walk.2 hsum) (hloose 0 _)
  exact ⟨n', hrotate, hinRank, hspans (Node.forall_mem_walk.2 hfits), hsequence⟩

end Reckoner
