import Reckoner.Cursor
import Reckoner.Operator
import Reckoner.Token

/-!
# Dialects

What an expression may be made of: which operators have a name and a rank, and which classes of
tokens are tried where an expression starts.

* `Dialect.standard` -- all operators, and the six classes that start an expression;
* `Dialect.classify` -- the first class in order that matches at a cursor;
* `Dialect.passToken` -- behind the lexeme of a token.
-/

namespace Reckoner

/-- The operator tables and the order of classification. -/
structure Dialect where
  names : List (Text × Text)
  ranks : List (Text × Nat)
  starts : List Token.Kind
  deriving DecidableEq, Repr

namespace Dialect

/-! ## 1. Dialects -/

/-- The classes of tokens that may start an expression, in the order they are tried. -/
def standardStarts : List Token.Kind :=
  [.number, .leftParen, .separator, .prefixOp, .binaryFunction, .unaryFunction]

/-- All operators, and the usual order. -/
def standard : Dialect := ⟨Operator.names, Operator.ranks, standardStarts⟩

/-- The dialect in which some symbols have no name and some have no rank. -/
def without (d : Dialect) (unnamed unranked : List Text) : Dialect :=
  { d with
    names := Operator.without d.names unnamed
    ranks := Operator.without d.ranks unranked }

/-- The name of an operator. -/
def name? (d : Dialect) (symbol : Text) : Option Text := d.names.lookup symbol

/-- The rank of an operator. -/
def rank? (d : Dialect) (symbol : Text) : Option Nat := d.ranks.lookup symbol

/-! ## 2. Tokens at a cursor -/

/-- The token of one class at a cursor. -/
def tokenOf (kind : Token.Kind) (c : Cursor) : Option Token :=
  (kind.match? c.remaining).map fun lexeme => ⟨kind, lexeme, c.location⟩

/-- The token that starts an expression at a cursor. -/
def classify (d : Dialect) (c : Cursor) : Option Token :=
  d.starts.findSome? fun kind => tokenOf kind c

/-- The infix operator at a cursor. -/
def infixAt (c : Cursor) : Option Token := tokenOf .infixOp c

/-- Passes the lexeme of a token, if there is one. -/
def passToken (token : Option Token) (c : Cursor) : Except Fault Cursor :=
  match token with
  | some token => c.advance token.lexeme.length
  | none => .ok c

end Dialect

end Reckoner
