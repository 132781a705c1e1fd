import Reckoner.Diagnostic

/-!
# Problems in an expression

A problem with the text of an expression is reported and reading goes on; it is never a fault.

* `Problem` -- the four problems that reading can find, and any other message a caller reports;
* `Problem.catalogue` -- their codes and messages;
* `Problem.ofMessage` -- a message that the catalogue lists means that problem;
* `Report` -- a problem at a location.
-/

namespace Reckoner

/-- What can be wrong with the text of an expression. -/
inductive Problem where
  /-- No expression starts here. -/
  | invalidExpression
  /-- Neither a comma nor a closing parenthesis follows the item of a list. -/
  | invalidInList
  /-- Something follows the whole expression. -/
  | trailingCharacters
  /-- Expressions are nested beyond the limit. -/
  | nestedTooDeeply
  /-- Anything else, in the words of the caller. -/
  | other (message : Text)
  deriving DecidableEq, Repr

namespace Problem

/-- The words for a problem. -/
def message : Problem → Text
  | .invalidExpression => "Invalid expression".toList
  | .invalidInList => "Invalid character in parenthesized expression".toList
  | .trailingCharacters => "Trailing characters".toList
  | .nestedTooDeeply => "Expression nested too deeply".toList
  | .other message => message

/-- The code of a problem that reading can find. -/
def code? : Problem → Option Text
  | .invalidExpression => some "P001".toList
  | .invalidInList => some "P002".toList
  | .trailingCharacters => some "P003".toList
  | .nestedTooDeeply => some "P004".toList
  | .other _ => none

/-- The problems that reading can find, by their codes. -/
def known : List Problem :=
  [.invalidExpression, .invalidInList, .trailingCharacters, .nestedTooDeeply]

/-- Each code with its message. -/
def catalogue : List (Text × Text) :=
  known.filterMap fun problem => problem.code?.map (·, problem.message)

/-- The problem that a message stands for. -/
def ofMessage (message : Text) : Problem :=
  (known.find? fun problem => problem.message = message).getD (.other message)

@[simp] theorem message_ofMessage (message : Text) : (ofMessage message).message = message := by
  unfold ofMessage
  cases h : known.find? fun problem => problem.message = message with
  | none => rfl
  | some problem => simpa using List.find?_some h

end Problem

/-- A problem and where it is. -/
structure Report where
  problem : Problem
  location : Location
  deriving DecidableEq, Repr

namespace Report

/-- The diagnostic that a report amounts to. -/
def diagnostic (r : Report) : Diagnostic :=
  ⟨r.problem.message, r.location, Diagnostic.error, r.problem.code?⟩

/-- `line:column: message`. -/
def text (r : Report) : Text := r.location.text ++ ": ".toList ++ r.problem.message

end Report

end Reckoner
