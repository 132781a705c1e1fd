import Reckoner.Proofs.Reading

/-!
# The shape of a tree

The shape of a tree leaves out where its nodes stand: kinds, symbols, names of operators and
functions, numbers as written and as read, and the children in order are kept.

* `Node.shape` -- the shape, as a tree without places;
* `Node.hole`, `Node.numeral`, `Node.list`, `Node.signed`, `Node.applied`, `Node.binary` -- the
  nodes of a shape;
* `Grouping.map`, `Chain.map` -- other operands in the places of a grouping or a chain;
* `Grouping.shape` -- the shape of a grouping, from the shapes of its operands: `shape_node`;
* `shape_number` and its neighbours -- the shapes of the nodes that are closed while reading.
-/

namespace Reckoner

/-! ## 1. Shapes -/

/-- The label without its place. Only a number keeps the text that it was written as. -/
def Label.shape (label : Label) : Label :=
  { label with
    span := Span.empty Location.origin
    text := if label.kind = .number then label.text else [] }

/-- A label without a place. -/
def Label.bare (kind : Node.Kind) : Label := .plain kind (Span.empty Location.origin)

namespace Node

mutual

/-- The tree without the places of its nodes. -/
def shape : Node → Node
  | .mk label children => .mk label.shape (shapes children)

/-- The same for some trees. -/
def shapes : List Node → List Node
  | [] => []
  | node :: rest => node.shape :: shapes rest

end

theorem shapes_eq_map (nodes : List Node) : shapes nodes = nodes.map shape := by
  induction nodes with
  | nil => rfl
  | cons node rest ih => rw [shapes, ih, List.map_cons]

@[simp] theorem shape_mk (label : Label) (children : List Node) :
    (mk label children).shape = .mk label.shape (children.map shape) := by
  rw [shape, shapes_eq_map]

/-- Nothing. -/
def hole : Node := .mk (.bare .expression) []

/-- A number, as written. -/
def numeral (x : Text) : Node :=
  .mk { Label.bare .number with text := x, number? := some (Number.ofLexeme x) } []

/-- A list of trees in parentheses. -/
def list (children : List Node) : Node := .mk (.bare .paren) children

/-- A sign in front of a tree. -/
def signed (sign : Char) (operand : Node) : Node :=
  .mk { Label.bare .prefixOp with
        symbol? := some [sign], operator? := some (Token.signName sign) } [operand]

/-- The kind of node for a function, by the table that names it. -/
def functionKind (name : Text) : Kind :=
  if Keyword.binary.contains name then .binaryFunction else .unaryFunction

/-- A function in front of a tree. -/
def applied (name : Text) (given : Node) : Node :=
  .mk { Label.bare (functionKind name) with operator? := some name } [given]

/-- An infix symbol between two trees. -/
def binary (link : Link) (first second : Node) : Node :=
  .mk { Label.bare .infixOp with
        symbol? := some link.symbol, operator? := some link.name } [first, second]

end Node

/-! ## 2. Groupings -/

/-- The chain with its operands replaced one by one. -/
def Chain.map {α β : Type} (f : α → β) (c : Chain α) : Chain β :=
  ⟨f c.first, c.rest.map fun step => (step.1, f step.2)⟩

theorem Chain.map_append {α β : Type} (f : α → β) (a b : Chain α) (link : Link) :
    (a.append link b).map f = (a.map f).append link (b.map f) := by
  simp [map, append]

namespace Grouping

/-- The grouping with its operands replaced one by one. -/
def map {α β : Type} (f : α → β) : Grouping α → Grouping β
  | .operand p => .operand (f p)
  | .join link left right => .join link (left.map f) (right.map f)

theorem map_settle {α β : Type} (f : α → β) (link : Link) (p : α) (g : Grouping α) :
    (settle link (.operand p) g).map f = settle link (.operand (f p)) (g.map f) := by
  induction g with
  | operand q => rfl
  | join upper left right ihl _ =>
      unfold settle
      simp only [map]
      split
      · rfl
      · rw [map, ihl]

theorem chain_map {α β : Type} (f : α → β) (g : Grouping α) :
    (g.map f).chain = g.chain.map f := by
  induction g with
  | operand p => rfl
  | join link left right ihl ihr => rw [map, chain, ihl, ihr, chain, Chain.map_append]

theorem rank?_map {α β : Type} (f : α → β) (g : Grouping α) : (g.map f).rank? = g.rank? := by
  cases g <;> rfl

/-- Whether a grouping is ordered is a matter of its symbols alone. -/
theorem Ordered.map {α β : Type} (f : α → β) {g : Grouping α} (hg : g.Ordered) :
    (g.map f).Ordered := by
  induction g with
  | operand p => trivial
  | join link left right ihl ihr =>
      obtain ⟨hl, hr, hol, hor⟩ := hg
      refine ⟨?_, ?_, ihl hol, ihr hor⟩
      · rwa [rank?_map]
      · rwa [rank?_map]

/-- The shape of a grouping whose operands are shapes. -/
def shape : Grouping Node → Node
  | .operand p => p
  | .join link left right => .binary link left.shape right.shape

/-- The shape of a grouping comes from the shapes of its operands. -/
theorem shape_node (source : Text) (g : Grouping Node) :
    (g.node source).shape = (g.map Node.shape).shape := by
  induction g with
  | operand p => rfl
  | join link left right ihl ihr =>
      simp only [node, Node.joined, Node.shape_mk, List.map_cons, List.map_nil, ihl, ihr]
      rfl

end Grouping

/-! ## 3. Nodes of a reading -/

namespace Session

variable {s : Session}

theorem shape_closed_hole (s s' : Session) :
    (s'.closed (s.opened .expression) []).shape = Node.hole := rfl

theorem shape_closed_list (s s' : Session) (children : List Node) :
    (s'.closed (s.opened .paren) children).shape = Node.list (children.map Node.shape) := by
  rw [closed, Node.shape_mk]
  rfl

theorem shape_closed_signed (s s' : Session) (sign : Char) (operand : Node) :
    (s'.closedAlong
      { s.opened .prefixOp with symbol? := some [sign], operator? := some (Token.signName sign) }
      [operand] operand).shape = Node.signed sign operand.shape := by
  rw [closedAlong, Node.shape_mk]
  rfl

/-- What a span covers that starts here and ends behind some more characters. -/
theorem cut_past (h : s.Inside) {x after : Text} (hrest : s.rest = x ++ after) :
    Span.cut ⟨s.location, (s.past x.length).location⟩ s.source = x := by
  obtain ⟨k, hk, -, hremaining⟩ := Cursor.Inside.exists_offset h
  have hsource : s.source.drop k = x ++ after := hremaining.symm.trans hrest
  have hstop : (s.past x.length).location.offset = ((k + x.length : Nat) : Int) := by
    rw [Int.natCast_add, ← hk]
    rfl
  have hstart : s.location.offset = (k : Int) := hk
  rw [Span.cut, hstart, hstop, Text.slice_natCast, hsource, Nat.add_sub_cancel_left, List.take_left]

theorem shape_closed_number (h : s.Inside) {x after : Text} (hrest : s.rest = x ++ after) :
    ((s.past x.length).closed { s.opened .number with number? := some (Number.ofLexeme x) }
      []).shape = Node.numeral x := by
  have hcut : Span.cut ⟨s.location, (s.past x.length).location⟩ (s.past x.length).source = x :=
    cut_past h hrest
  rw [closed, Node.shape_mk]
  simp [Label.shape, Label.refresh, Label.endAlong, opened, Label.plain, Span.empty, hcut,
    Node.numeral, Label.bare]

/-- A function name stands in one of the tables only, so the table tells the kind of its token. -/
theorem functionKind_eq {kind : Token.Kind} {t x : Text} (location : Location)
    (hkind : kind.isFunction = true) (hmatch : kind.match? t = some x) :
    Rule.functionKind ⟨kind, x, location⟩ = Node.functionKind x := by
  cases kind with
  | binaryFunction =>
      have hx : x ∈ Keyword.binary := (Keyword.mem_of_match? hmatch).1
      simp [Rule.functionKind, Node.functionKind, hx]
  | unaryFunction =>
      have hdisjoint : ∀ k ∈ Keyword.unary, k ∉ Keyword.binary := by decide
      have hx : x ∉ Keyword.binary := hdisjoint x (Keyword.mem_of_match? hmatch).1
      simp [Rule.functionKind, Node.functionKind, hx]
  | _ => simp [Token.Kind.isFunction] at hkind

theorem shape_closed_applied (s s' : Session) {kind : Token.Kind} {t x : Text}
    (location : Location) (hkind : kind.isFunction = true) (hmatch : kind.match? t = some x)
    (given : Node) :
    (s'.closedAlong
      { s.opened (Rule.functionKind ⟨kind, x, location⟩) with operator? := some x }
      [given] given).shape = Node.applied x given.shape := by
  have hnumber : Node.functionKind x ≠ .number := by
    unfold Node.functionKind
    split <;> simp
  rw [functionKind_eq location hkind hmatch, closedAlong, Node.shape_mk]
  simp [Label.shape, Label.refresh, Label.endAlong, opened, Label.plain, hnumber, Node.applied,
    Label.bare]

end Session

end Reckoner
