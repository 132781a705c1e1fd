import Reckoner.Keyword
import Reckoner.Location
import Reckoner.Number.Lexeme
import Reckoner.Text.Quoted

/-!
# Tokens

The classes of tokens, what each class looks like at the start of a text, and a token itself.

* `Token.Kind` -- the eight classes;
* `Token.infixSymbol?` -- the longest infix symbol: two stars come before one;
* `Token.Kind.match?` -- the lexeme of a class at the start of a text, if one stands there.
-/

namespace Reckoner

/-! ## 1. Classes of tokens -/

namespace Token

/-- The classes of tokens. -/
inductive Kind where
  | number
  | leftParen
  | separator
  | prefixOp
  | infixOp
  | postfixOp
  | binaryFunction
  | unaryFunction
  deriving DecidableEq, Repr

namespace Kind

/-- All classes, in the order of their numbers. -/
def all : List Kind :=
  [.number, .leftParen, .separator, .prefixOp, .infixOp, .postfixOp, .binaryFunction,
    .unaryFunction]

/-- The name of a class. -/
def name : Kind → Text
  | .number => "NUMBER".toList
  | .leftParen => "LEFT_PAREN".toList
  | .separator => "SEPARATOR".toList
  | .prefixOp => "PREFIX_OP".toList
  | .infixOp => "INFIX_OP".toList
  | .postfixOp => "POSTFIX_OP".toList
  | .binaryFunction => "BINARY_FUNCTION".toList
  | .unaryFunction => "UNARY_FUNCTION".toList

/-- Each class by its name, numbered from one. -/
def numbered : List (Text × Nat) := all.zipIdx.map fun (kind, i) => (kind.name, i + 1)

/-- The class of a name. -/
def ofName? (name : Text) : Option Kind := all.find? fun kind => kind.name = name

/-- Whether the class names built-in functions. -/
def isFunction : Kind → Bool
  | .binaryFunction => true
  | .unaryFunction => true
  | _ => false

end Kind

/-- A single character of a set at the start of a text. -/
def oneOf (set : Text) : Text → Option Text
  | [] => none
  | c :: _ => if set.contains c then some [c] else none

/-- The signs that may stand before an operand. -/
def signs : Text := "+-".toList

/-- The infix symbols of one character. -/
def shortInfixSymbols : Text := "+-*×/÷%^".toList

/-- The infix symbol at the start of a text: two stars if they stand there. -/
def infixSymbol? : Text → Option Text
  | '*' :: '*' :: _ => some ['*', '*']
  | t => oneOf shortInfixSymbols t

/-- The lexeme of a class at the start of a text. -/
def Kind.match? : Kind → Text → Option Text
  | .number => Numeral.lexeme?
  | .leftParen => oneOf ['(']
  | .separator => oneOf [',']
  | .prefixOp => oneOf signs
  | .infixOp => infixSymbol?
  | .postfixOp => oneOf ['!']
  | .binaryFunction => Keyword.match? Keyword.binary
  | .unaryFunction => Keyword.match? Keyword.unary

end Token

/-! ## 2. Tokens -/

/-- A lexeme of a class at a location. -/
structure Token where
  kind : Token.Kind
  lexeme : Text
  location : Location
  deriving DecidableEq, Repr

namespace Token

/-- The name of the class with the lexeme. -/
def text (token : Token) : Text := token.kind.name ++ '(' :: token.lexeme.cited ++ [')']

end Token

end Reckoner
