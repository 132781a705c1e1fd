import Reckoner.Location
import Reckoner.Number

/-!
# Trees

The tree of an expression. Every node carries one record, its label, whatever its kind; the label
says where the node stands and what it was written as.

* `Label` -- the kind, the span and the text of a node, and its operator or its number;
* `Node` -- a label over the children, in the order of the text;
* `Node.count`, `Node.depths` -- how many nodes there are, and each label with its depth, parents
  before their children;
* `Node.alter` -- one label changed, the node being named by its place in that order.
-/

namespace Reckoner

namespace Node

/-- The kinds of nodes. -/
inductive Kind where
  /-- Something malformed, or nothing where an item may be left out. -/
  | expression
  | number
  | paren
  | prefixOp
  | infixOp
  | binaryFunction
  | unaryFunction
  deriving DecidableEq, Repr

namespace Kind

/-- All kinds. -/
def all : List Kind :=
  [.expression, .number, .paren, .prefixOp, .infixOp, .binaryFunction, .unaryFunction]

/-- The name of a kind. -/
def name : Kind → Text
  | .expression => "EXPRESSION".toList
  | .number => "NUMBER".toList
  | .paren => "PAREN".toList
  | .prefixOp => "PREFIX_OP".toList
  | .infixOp => "INFIX_OP".toList
  | .binaryFunction => "BINARY_FUNCTION".toList
  | .unaryFunction => "UNARY_FUNCTION".toList

/-- The word for a kind on the lines of a tree. -/
def word : Kind → Text
  | .expression => "expr".toList
  | .number => "number".toList
  | .paren => "paren".toList
  | .prefixOp => "prefixOp".toList
  | .infixOp => "infixOp".toList
  | .binaryFunction => "binFunc".toList
  | .unaryFunction => "unaFunc".toList

/-- Each name with its word. -/
def words : List (Text × Text) := all.map fun kind => (kind.name, kind.word)

/-- The kind of a name. -/
def ofName? (name : Text) : Option Kind := all.find? fun kind => kind.name = name

end Kind

end Node

/-- What a node says of itself. A field that a kind has no use for is unset. -/
structure Label where
  kind : Node.Kind
  span : Span
  text : Text
  /-- The name of the operation, or the function as written. -/
  operator? : Option Text
  /-- The operator as written, which decides its rank. -/
  symbol? : Option Text
  number? : Option Number
  deriving DecidableEq, Repr

namespace Label

/-! ## 1. Labels -/

/-- A label over a span, with nothing else set. -/
def plain (kind : Node.Kind) (span : Span) : Label := ⟨kind, span, [], none, none, none⟩

/-- Whether the label is that of an infix operator. -/
def isInfix (label : Label) : Bool := label.kind = .infixOp

/-- The label starting where a span starts. -/
def startAlong (label : Label) (other : Span) : Label :=
  { label with span := ⟨other.start, label.span.stop⟩ }

/-- The label ending where a span ends. -/
def endAlong (label : Label) (other : Span) : Label :=
  { label with span := ⟨label.span.start, other.stop⟩ }

/-- The label with the text that its span covers. -/
def refresh (label : Label) (source : Text) : Label :=
  { label with text := label.span.cut source }

end Label

/-! ## 2. Nodes -/

/-- A node of a tree. -/
inductive Node where
  | mk (label : Label) (children : List Node)
  deriving Repr

namespace Node

/-- What the node says of itself. -/
def label : Node → Label
  | .mk label _ => label

/-- The children, in the order of the text. -/
def children : Node → List Node
  | .mk _ children => children

/-- The kind of the node. -/
def kind (node : Node) : Kind := node.label.kind

/-- Where the node stands. -/
def span (node : Node) : Span := node.label.span

/-- What the node was written as. -/
def text (node : Node) : Text := node.label.text

@[simp] theorem label_mk (label : Label) (children : List Node) :
    (mk label children).label = label := rfl

@[simp] theorem children_mk (label : Label) (children : List Node) :
    (mk label children).children = children := rfl

/-! ## 3. All the nodes of a tree -/

mutual

/-- How many nodes a tree has. -/
def count : Node → Nat
  | .mk _ children => countAll children + 1

/-- How many nodes some trees have together. -/
def countAll : List Node → Nat
  | [] => 0
  | node :: rest => node.count + countAll rest

end

@[simp] theorem countAll_append : ∀ a b : List Node, countAll (a ++ b) = countAll a + countAll b
  | [], b => by simp [countAll]
  | node :: rest, b => by simp [countAll, countAll_append rest b, Nat.add_assoc]

mutual

/-- Every label with its depth, parents before their children. -/
def depthsFrom (depth : Nat) : Node → List (Nat × Label)
  | .mk label children => (depth, label) :: depthsFromAll (depth + 1) children

/-- The same for some trees, one after the other. -/
def depthsFromAll (depth : Nat) : List Node → List (Nat × Label)
  | [] => []
  | node :: rest => depthsFrom depth node ++ depthsFromAll depth rest

end

/-- Every label with its depth; the root has depth zero. -/
def depths (node : Node) : List (Nat × Label) := depthsFrom 0 node

mutual

/-- The tree with the label at a place changed; places are counted parents before children. -/
def alter (f : Label → Label) : Nat → Node → Node
  | 0, .mk label children => .mk (f label) children
  | i + 1, .mk label children => .mk label (alterAll f i children)

/-- The same for some trees, the places counted through. -/
def alterAll (f : Label → Label) : Nat → List Node → List Node
  | _, [] => []
  | i, node :: rest =>
      if i < node.count then alter f i node :: rest
      else node :: alterAll f (i - node.count) rest

end

end Node

end Reckoner
