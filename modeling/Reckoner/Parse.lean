import Reckoner.Grammar

/-!
# Parsing

* `NestingLimit` -- how many expressions may be open at a time, at least one;
* `Settings` -- a nesting limit and a dialect;
* `Parse` -- the tree of a text and the session as reading left it;
* `parse` -- reads a text;
* `edition` -- the number of this edition of the library.
-/

namespace Reckoner

/-- How many expressions may be open at a time. -/
structure NestingLimit where
  levels : Nat
  levels_pos : 0 < levels
  deriving DecidableEq, Repr

namespace NestingLimit

/-- The limit unless another one is asked for. -/
def standard : NestingLimit := ⟨128, by decide⟩

/-- The limit of that many levels; a fault unless it is positive. -/
def ofInt (depth : Int) : Except Fault NestingLimit :=
  if h : 0 < depth then .ok ⟨depth.toNat, by omega⟩ else .error (.depthNotPositive depth)

end NestingLimit

/-- What a text is read with. -/
structure Settings where
  limit : NestingLimit
  dialect : Dialect
  deriving DecidableEq, Repr

namespace Settings

/-- The standard limit and all operators. -/
def standard : Settings := ⟨NestingLimit.standard, Dialect.standard⟩

end Settings

/-- A text that has been read. -/
structure Parse where
  root : Node
  session : Session
  deriving Repr

namespace Parse

/-- The text that was read. -/
def source (p : Parse) : Text := p.session.source

/-- The problems that were found, in the order of the text. -/
def reports (p : Parse) : List Report := p.session.reports

/-- Whether any problem was found. -/
def hasErrors (p : Parse) : Bool := !p.reports.isEmpty

end Parse

/-- Reads a text. -/
def parse (settings : Settings) (source : Text) : Except Fault Parse :=
  match (Rule.root settings.dialect settings.limit.levels).runOn (Session.start source) with
  | (.ok root, session) => .ok ⟨root, session⟩
  | (.error fault, _) => .error fault

/-- The number of this edition. -/
def edition : Text := "0.1.0".toList

end Reckoner
