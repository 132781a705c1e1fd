import Reckoner.Parse

/-!
# Calling the rules of a session one by one

After a text has been read its session can go on: the rules may be called again, in any order and
from wherever the cursor stands.

* `Command` -- the calls;
* `Command.perform` -- what a call does to the session, and the node it gives, if it gives one.
-/

namespace Reckoner

/-- A call of a session. -/
inductive Command where
  | root
  | expression
  | list
  | invalid
  | abandon
  | report (message : Text)
  | pass (count : Int)
  | skipBlanks
  /-- Back to the start, and from there on by a number of characters. -/
  | rewind (count : Int)
  deriving DecidableEq, Repr

namespace Command

/-- The levels that a session may still open. -/
def levelsLeft (settings : Settings) (s : Session) : Nat := settings.limit.levels - s.depth

/-- The rule for an expression in the session as it stands. -/
def expressionHere (settings : Settings) : Rule Node := do
  Rule.expression settings.dialect (levelsLeft settings (← get))

/-- Carries out a call. -/
def perform (settings : Settings) : Command → Rule (Option Node)
  | .root => do return some (← Rule.root settings.dialect (levelsLeft settings (← get)))
  | .expression => do return some (← expressionHere settings)
  | .list => do return some (← Rule.list (expressionHere settings))
  | .invalid => do return some (← Rule.invalid)
  | .abandon => do return some (← Rule.abandon)
  | .report message => do
      Rule.report (Problem.ofMessage message)
      return none
  | .pass count => do
      Rule.pass count
      return none
  | .skipBlanks => do
      Rule.skipBlanks
      return none
  | .rewind count => do
      modify fun s => s.moveTo (Cursor.start s.source)
      Rule.pass count
      return none

end Command

end Reckoner
