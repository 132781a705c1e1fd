import Reckoner.Node
import Reckoner.Text.Quoted

/-!
# Trees as texts

* `Label.header` -- the span, the kind, the payload and the quoted text of a node, in this order;
* `Node.outline` -- the lines of a tree: the header of the node, then the lines of its children,
  set in by two blanks. A header that holds line feeds makes as many lines, all set in alike;
* `Node.dump` -- these lines as one text;
* `Label.summary` -- a node in a few words, without its children.
-/

namespace Reckoner

namespace Label

/-- What an unset field is shown as. -/
def unset : Text := "None".toList

/-- The payload of a node, with a blank after it: the number of a number, the operator of an
    operator or a function, nothing otherwise. -/
def info (label : Label) : Text :=
  match label.kind with
  | .number => ((label.number?.map Number.text).getD unset) ++ [' ']
  | .prefixOp => label.operator?.getD unset ++ [' ']
  | .infixOp => label.operator?.getD unset ++ [' ']
  | .binaryFunction => label.operator?.getD unset ++ [' ']
  | .unaryFunction => label.operator?.getD unset ++ [' ']
  | .expression => []
  | .paren => []

/-- What is shown of a node itself. -/
def header (label : Label) : Text :=
  label.span.text ++ ' ' :: label.kind.word ++ ' ' :: label.info ++ label.text.quoted

/-- A node in a few words. -/
def summary (label : Label) : Text :=
  "SyntaxTreeNode(".toList ++ label.kind.name ++ ", span=".toList ++ label.span.text ++
    ", text=".toList ++ label.text.cited ++ [')']

end Label

namespace Node

mutual

/-- The lines of a tree. -/
def outline : Node → List Text
  | .mk label children => label.header.lines ++ outlineAll children

/-- The lines of the children of a node, set in. -/
def outlineAll : List Node → List Text
  | [] => []
  | node :: rest => (outline node).map Text.indented ++ outlineAll rest

end

/-- A tree as a text. -/
def dump (node : Node) : Text := Text.unlines node.outline

end Node

end Reckoner
