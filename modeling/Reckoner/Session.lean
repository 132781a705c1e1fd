import Reckoner.Cursor
import Reckoner.Node
import Reckoner.Problem

/-!
# A session over one text

Reading an expression moves a cursor and leaves reports behind. A rule may also end in a fault; the
session is kept as it was then.

* `Session` -- the cursor, the reports so far, whether the text was given up, and the accounts: how
  many expressions are open and where expressions were begun;
* `Rule` -- a step of a session with a result, and `Rule.runOn`, what it makes of a session;
* `Rule.pass`, `Rule.skipBlanks`, `Rule.report` -- the steps that all rules are made of;
* `Rule.nested` -- a rule inside one more open expression, closed again however it ends;
* `Rule.openNode`, `Rule.close`, `Rule.closeAlong` -- a node begun at the cursor and ended there, or
  ended where another node ends;
* `runOn_bind` and its neighbours -- how `Rule.runOn` goes through the parts of a rule.
-/

namespace Reckoner

/-! ## 1. The state -/

/-- The state of reading a text. -/
structure Session where
  cursor : Cursor
  reports : List Report
  /-- The text was given up because expressions are nested too deeply. -/
  abandoned : Bool
  /-- How many expressions are open. -/
  depth : Nat
  /-- The offsets at which expressions were begun, the latest first. -/
  begun : List Int
  deriving DecidableEq, Repr

namespace Session

/-- The session at the start of a text. -/
def start (source : Text) : Session := ⟨Cursor.start source, [], false, 0, []⟩

/-- The text that is read. -/
def source (s : Session) : Text := s.cursor.source

/-- Where the session stands. -/
def location (s : Session) : Location := s.cursor.location

/-- The session with its cursor elsewhere. -/
def moveTo (s : Session) (cursor : Cursor) : Session := { s with cursor }

/-- The session with a problem at the cursor reported. -/
def note (s : Session) (problem : Problem) : Session :=
  { s with reports := s.reports ++ [⟨problem, s.location⟩] }

/-- The session with its text given up. -/
def giveUp (s : Session) : Session := { s with abandoned := true }

/-- The session with an expression begun at the cursor. -/
def begin (s : Session) : Session := { s with begun := s.location.offset :: s.begun }

/-- The session with one more expression open. -/
def enter (s : Session) : Session := { s with depth := s.depth + 1 }

/-- The session with one expression closed. -/
def leave (s : Session) : Session := { s with depth := s.depth - 1 }

end Session

/-- A step of a session. -/
abbrev Rule (α : Type) := ExceptT Fault (StateM Session) α

namespace Rule

/-! ## 2. Steps -/

/-- What a rule makes of a session: its result or its fault, and the session then. -/
def runOn {α : Type} (rule : Rule α) (s : Session) : Except Fault α × Session := rule s

/-- Passes characters that must be there. -/
def pass (count : Int) : Rule Unit := fun s =>
  match s.cursor.advance count with
  | .ok cursor => (.ok (), s.moveTo cursor)
  | .error fault => (.error fault, s)

/-- Passes the blanks at the cursor. -/
def skipBlanks : Rule Unit := modify fun s => s.moveTo s.cursor.skipBlanks

/-- The next character, or nothing at the end. -/
def peek : Rule Text := do
  return (← get).cursor.peek 1

/-- Whether the text has been read up. -/
def atEnd : Rule Bool := do
  return (← get).cursor.atEnd

/-- Reports a problem at the cursor. -/
def report (problem : Problem) : Rule Unit := modify fun s => s.note problem

/-- Takes over the result of a computation that moves nothing. -/
def ofResult {α : Type} : Except Fault α → Rule α
  | .ok result => pure result
  | .error fault => throw fault

/-- Runs a rule inside one more open expression, which is closed again whether the rule gives a
    result or ends in a fault. -/
def nested {α : Type} (rule : Rule α) : Rule α := fun s =>
  let (result, s') := rule s.enter
  (result, s'.leave)

/-! ## 3. Nodes -/

/-- The label of a node that begins at the cursor. -/
def openNode (kind : Node.Kind) : Rule Label := do
  return Label.plain kind (Span.empty (← get).location)

/-- The node, ended at the cursor. -/
def close (label : Label) (children : List Node) : Rule Node := do
  let s ← get
  return .mk ((label.endAlong (Span.empty s.location)).refresh s.source) children

/-- The node, ended where its last child ends. -/
def closeAlong (label : Label) (children : List Node) (last : Node) : Rule Node := do
  let s ← get
  return .mk ((label.endAlong last.span).refresh s.source) children

/-! ## 4. Running a rule part by part -/

/-- **A sequence runs its second part on the session that the first one leaves**, unless the first
    one ends in a fault. -/
theorem runOn_bind {α β : Type} (rule : Rule α) (next : α → Rule β) (s : Session) :
    (rule >>= next).runOn s =
      match rule.runOn s with
      | (.ok result, s') => (next result).runOn s'
      | (.error fault, s') => (.error fault, s') := by
  change (match rule s with | (result, s') => ExceptT.bindCont next result s') = _
  unfold runOn
  rcases rule s with ⟨result | result, s'⟩ <;> rfl

@[simp] theorem runOn_pure {α : Type} (result : α) (s : Session) :
    (pure result : Rule α).runOn s = (.ok result, s) := rfl

@[simp] theorem runOn_throw {α : Type} (fault : Fault) (s : Session) :
    (throw fault : Rule α).runOn s = (.error fault, s) := rfl

@[simp] theorem runOn_get (s : Session) : (get : Rule Session).runOn s = (.ok s, s) := rfl

@[simp] theorem runOn_modify (f : Session → Session) (s : Session) :
    (modify f : Rule Unit).runOn s = (.ok (), f s) := rfl

@[simp] theorem runOn_nested {α : Type} (rule : Rule α) (s : Session) :
    (nested rule).runOn s = ((rule.runOn s.enter).1, (rule.runOn s.enter).2.leave) := rfl

theorem runOn_pass (count : Int) (s : Session) :
    (pass count).runOn s =
      match s.cursor.advance count with
      | .ok cursor => (.ok (), s.moveTo cursor)
      | .error fault => (.error fault, s) := rfl

@[simp] theorem runOn_ite {α : Type} (p : Prop) [Decidable p] (a b : Rule α) (s : Session) :
    (if p then a else b).runOn s = if p then a.runOn s else b.runOn s := by
  split <;> rfl

end Rule

end Reckoner
