import Reckoner.Dialect
import Reckoner.Node.Rotation
import Reckoner.Session

/-!
# The grammar of expressions

The rules that read an expression and build its tree. Each rule takes the rule for the expressions
inside it as an argument, and `expression` closes the circle: it is given the number of levels that
may still be opened, and the expressions inside it get one level less. The session counts the open
expressions beside it, and the two add up to the limit.

* `Rule.number`, `Rule.list`, `Rule.prefixed`, `Rule.call`, `Rule.invalid`, `Rule.placeholder` --
  the expressions without an infix operator in front of their end;
* `Rule.primary` -- whichever of these the next token asks for;
* `Rule.infixed` -- an infix operator behind a left operand; its right operand is a whole
  expression, and `Node.rotate` regroups the two;
* `Rule.expression` -- a primary, and what follows it if an infix operator does;
* `Rule.root` -- the whole text.

Problems in the text are reported and reading goes on behind them. A rule ends in a fault only when
the dialect does not fit together, or when `Rule.list` is called where no parenthesis opens.
-/

namespace Reckoner

namespace Rule

/-! ## 1. Recovery -/

/-- Nothing that could start an expression: one character is passed, if there is one. -/
def invalid : Rule Node := do
  let label ← openNode .expression
  report .invalidExpression
  if !(← atEnd) then
    pass 1
  close label []

/-- Gives up on a text that is nested too deeply and passes all that is left. Only the first time
    this is reported. -/
def abandon : Rule Node := do
  let label ← openNode .expression
  if !(← get).abandoned then
    report .nestedTooDeeply
  modify Session.giveUp
  pass (← get).cursor.remaining.length
  close label []

/-- Nothing in front of a comma; the list around it takes the comma. -/
def placeholder : Rule Node := do
  close (← openNode .expression) []

/-! ## 2. Numbers and lists -/

/-- A number. -/
def number (token : Token) : Rule Node := do
  let label ← openNode .number
  pass token.lexeme.length
  close { label with number? := some (Number.ofLexeme token.lexeme) } []

/-- The text ends inside a list; not worth a report when it was given up before. -/
def unclosed : Rule (List Node) := do
  if !(← get).abandoned then
    report .invalidInList
  return []

/-- The items of a list and its closing parenthesis. There are at most as many items as characters
    are left, and `bound` is that number. A character that is neither a comma nor the closing
    parenthesis is reported and separates items like a comma. -/
def items (inner : Rule Node) : Nat → Rule (List Node)
  | 0 => unclosed
  | bound + 1 => do
      if (← atEnd) then
        unclosed
      else
        let item ← inner
        skipBlanks
        match (← peek) with
        | [','] =>
            pass 1
            skipBlanks
            return item :: (← items inner bound)
        | [')'] =>
            pass 1
            return [item]
        | [] => return item :: (← items inner bound)
        | _ =>
            report .invalidInList
            pass 1
            return item :: (← items inner bound)

/-- A list of expressions in parentheses. -/
def list (inner : Rule Node) : Rule Node := do
  let label ← openNode .paren
  let found ← peek
  if found ≠ ['('] then
    throw (.listStart found label.span.start)
  pass 1
  skipBlanks
  let children ← items inner (← get).cursor.available.toNat
  close label children

/-! ## 3. Operators and functions -/

/-- A sign and its operand, which is a whole expression. -/
def prefixed (dialect : Dialect) (inner : Rule Node) (token : Token) : Rule Node := do
  let label ← openNode .prefixOp
  match dialect.name? token.lexeme with
  | none => throw (.unnamedOperator token.lexeme)
  | some name =>
      pass token.lexeme.length
      let operand ← inner
      closeAlong { label with symbol? := some token.lexeme, operator? := some name } [operand]
        operand

/-- The kind of node for a function. -/
def functionKind (token : Token) : Node.Kind :=
  if token.kind = .binaryFunction then .binaryFunction else .unaryFunction

/-- The arguments of a function: a list. Without one there is a report and an empty node. -/
def arguments (inner : Rule Node) : Rule Node := do
  if (← peek) = ['('] then
    list inner
  else
    report .invalidExpression
    placeholder

/-- A function and its arguments. How many there should be is not asked here. -/
def call (inner : Rule Node) (token : Token) : Rule Node := do
  let label ← openNode (functionKind token)
  pass token.lexeme.length
  skipBlanks
  let given ← arguments inner
  closeAlong { label with operator? := some token.lexeme } [given] given

/-- An infix operator behind a left operand, and its right operand. -/
def infixed (dialect : Dialect) (inner : Rule Node) (first : Node) (token : Token) : Rule Node := do
  match dialect.name? token.lexeme, dialect.rank? token.lexeme with
  | some name, some _ =>
      let label := Label.plain .infixOp ⟨first.span.start, token.location⟩
      pass token.lexeme.length
      let second ← inner
      let joined ← closeAlong { label with symbol? := some token.lexeme, operator? := some name }
        [first, second] second
      ofResult (joined.rotate dialect.rank? (← get).source)
  | _, _ => throw (.unknownOperator token.lexeme token.location)

/-! ## 4. Expressions -/

/-- An expression up to the first infix operator behind it. -/
def primary (dialect : Dialect) (inner : Rule Node) : Rule Node := do
  skipBlanks
  match dialect.classify (← get).cursor with
  | none => invalid
  | some token =>
      match token.kind with
      | .number => number token
      | .leftParen => list inner
      | .separator => placeholder
      | .prefixOp => prefixed dialect inner token
      | .binaryFunction => call inner token
      | .unaryFunction => call inner token
      | .infixOp => throw (.unhandledToken token.kind.name token.location)
      | .postfixOp => throw (.unhandledToken token.kind.name token.location)

/-- What follows a primary: an infix operator and its right operand, or nothing. -/
def continued (dialect : Dialect) (inner : Rule Node) (first : Node) : Rule Node := do
  skipBlanks
  match Dialect.infixAt (← get).cursor with
  | none => return first
  | some token => infixed dialect inner first token

/-- An expression, of which `levels` may still be opened one inside the other. -/
def expression (dialect : Dialect) : Nat → Rule Node
  | 0 => do
      modify Session.begin
      abandon
  | levels + 1 => do
      modify Session.begin
      nested do
        let first ← primary dialect (expression dialect levels)
        continued dialect (expression dialect levels) first

/-- The whole text: one expression and blanks. -/
def root (dialect : Dialect) (levels : Nat) : Rule Node := do
  let node ← expression dialect levels
  skipBlanks
  if !(← atEnd) then
    report .trailingCharacters
  return node

end Rule

end Reckoner
