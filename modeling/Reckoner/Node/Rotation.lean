import Reckoner.Fault
import Reckoner.Node

/-!
# Restoring precedence

The right operand of an infix operator is first read as if nothing bound tighter, so it may be an
infix node that should have bound looser than the operator in front of it:

    a ∘ (b • c)   becomes   (a ∘ b) • c   unless • binds tighter than ∘.

Equal ranks are regrouped too, which makes chains of one rank lean to the left. The lowered node is
regrouped in turn, because `b` may be an infix node itself.

* `Node.settle` -- joins a left operand and a tree under an infix label, where they belong;
* `Node.rotate` -- the same for a node that already holds its two operands.

Spans and texts follow: the lowered label ends where its new right operand ends, the raised one
starts where the left operand starts.
-/

namespace Reckoner

namespace Node

/-- The rank of a symbol, which must have one. -/
def rankOf (rank? : Text → Option Nat) (symbol? : Option Text) : Except Fault Nat :=
  match symbol?.bind rank? with
  | some rank => .ok rank
  | none => .error (.unrankedOperator symbol?)

/-- Joins two operands under an infix label; the label sinks to the left into the second operand as
    long as the symbol met there does not bind tighter. -/
def settle (rank? : Text → Option Nat) (source : Text) (label : Label) (first : Node) :
    Node → Except Fault Node
  | .mk upper operands =>
      if upper.kind ≠ .infixOp then .ok (.mk label [first, .mk upper operands])
      else
        match rankOf rank? label.symbol?, rankOf rank? upper.symbol? with
        | .error fault, _ => .error fault
        | _, .error fault => .error fault
        | .ok own, .ok met =>
            if own < met then .ok (.mk label [first, .mk upper operands])
            else
              match operands with
              | [] => .error (.operandCount 0)
              | middle :: others =>
                  match settle rank? source ((label.endAlong middle.span).refresh source) first
                      middle with
                  | .error fault => .error fault
                  | .ok lowered =>
                      .ok (.mk ((upper.startAlong first.span).refresh source)
                        (lowered :: others))

/-- Regroups an infix node so that the operators of its right operand bind as their ranks say. -/
def rotate (rank? : Text → Option Nat) (source : Text) : Node → Except Fault Node
  | .mk label [first, second] => settle rank? source label first second
  | .mk _ children => .error (.operandCount children.length)

end Node

end Reckoner
