import Reckoner.Node.Walk
import Reckoner.Parse

/-!
# Computing an expression

An expression is read, and only if it was read without any report its tree is handed to an
evaluator.

* `Complaint` -- a report on the text, or an evaluator's own words;
* `Computation` -- a result, the parse it comes from, and the complaints;
* `Evaluator` -- makes a computation of a parse;
* `compute` -- reading and then evaluating.
-/

namespace Reckoner

/-- What stands against a result. -/
inductive Complaint where
  | report (report : Report)
  | refusal (message : Text)
  deriving DecidableEq, Repr

/-- What came of an expression. -/
structure Computation (α : Type) where
  result? : Option α
  parse : Parse
  complaints : List Complaint

namespace Computation

/-- Whether anything stands against the result. -/
def hasErrors {α : Type} (c : Computation α) : Bool := !c.complaints.isEmpty

end Computation

/-- What makes a value of an expression that was read without any report. -/
structure Evaluator (α : Type) where
  evaluate : Parse → Computation α

namespace Evaluator

/-- Computes nothing and complains of nothing. -/
def silent (α : Type) : Evaluator α := ⟨fun parse => ⟨none, parse, []⟩⟩

/-- Counts the nodes of the tree. -/
def nodeCount : Evaluator Nat := ⟨fun parse => ⟨some parse.root.walk.length, parse, []⟩⟩

/-- Refuses every expression. -/
def refusing (α : Type) : Evaluator α :=
  ⟨fun parse => ⟨none, parse, [.refusal ("refused: ".toList ++ parse.source)]⟩⟩

end Evaluator

/-- Reads a text and, unless that found problems, evaluates it. -/
def compute {α : Type} (settings : Settings) (evaluator : Evaluator α) (source : Text) :
    Except Fault (Computation α) :=
  match parse settings source with
  | .error fault => .error fault
  | .ok parsed =>
      if parsed.hasErrors then .ok ⟨none, parsed, parsed.reports.map .report⟩
      else .ok (evaluator.evaluate parsed)

end Reckoner
