import Reckoner.Calculator

/-!
# What is told while an expression is computed

Reading and computing an expression announce their steps. The steps can be told from the outcome of
reading alone.

* `Event` -- a step that is announced;
* `Event.message` -- its words;
* `events` -- the steps of computing one text, in order.
-/

namespace Reckoner

/-- A step of computing an expression. -/
inductive Event where
  /-- Reading starts on a text of that many characters. -/
  | reading (length : Nat)
  /-- The nesting limit was reached. -/
  | limitReached (levels : Nat) (location : Location)
  /-- Reading is over and found problems. -/
  | readWithProblems (count : Nat)
  /-- Because of the problems nothing is evaluated. -/
  | notEvaluated (count : Nat)
  deriving DecidableEq, Repr

namespace Event

/-- The words for a step. -/
def message : Event → Text
  | .reading length =>
      "Parsing expression of ".toList ++ Nat.toDigits 10 length ++ " characters".toList
  | .limitReached levels location =>
      "Nesting limit of ".toList ++ Nat.toDigits 10 levels ++ " reached at ".toList ++
        location.text
  | .readWithProblems count =>
      "Parse finished with ".toList ++ Nat.toDigits 10 count ++ " error(s)".toList
  | .notEvaluated count =>
      "Skipping evaluation, ".toList ++ Nat.toDigits 10 count ++ " syntax error(s)".toList

/-- Whether the step belongs to reading, not to computing. -/
def isReading : Event → Bool
  | .notEvaluated _ => false
  | _ => true

end Event

/-- The step that a report stands for, if it was announced. -/
def Report.event? (limit : NestingLimit) (r : Report) : Option Event :=
  match r.problem with
  | .nestedTooDeeply => some (.limitReached limit.levels r.location)
  | _ => none

/-- The steps of computing a text that was read. -/
def Parse.events (limit : NestingLimit) (p : Parse) : List Event :=
  .reading p.source.length :: p.reports.filterMap (Report.event? limit) ++
    if p.hasErrors then [.readWithProblems p.reports.length, .notEvaluated p.reports.length]
    else []

/-- The steps of computing a text. -/
def events (settings : Settings) (source : Text) : Except Fault (List Event) :=
  (parse settings source).map (Parse.events settings.limit)

end Reckoner
