import Reckoner.Diagnostic
import Reckoner.Text.Quoted

/-!
# Faults

A fault says that the library itself was used wrongly or that its tables do not fit together. It is
never a report on the text of an expression.

* `Fault` -- the causes, one constructor each;
* `Fault.diagnostic?` -- the diagnostic of those that have a place in a text;
* `Fault.message` -- what is told about a fault: its diagnostic, or its bare words.
-/

namespace Reckoner

/-- Why an operation could not be carried out. -/
inductive Fault where
  /-- More characters were to be passed than are left. -/
  | overrun (requested available : Int) (location : Location)
  /-- A list was to be read where no parenthesis opens one. -/
  | listStart (found : Text) (location : Location)
  /-- An infix operator has no name or no rank. -/
  | unknownOperator (symbol : Text) (location : Location)
  /-- No rule reads a token of this class. -/
  | unhandledToken (name : Text) (location : Location)
  /-- A fault of reading characters, in the words of the caller. -/
  | reading (message : Text) (location : Location)
  /-- A fault of the grammar, in the words of the caller. -/
  | grammar (message : Text) (location : Location)
  /-- A prefix operator has no name. -/
  | unnamedOperator (symbol : Text)
  /-- An infix node to be rearranged has a symbol without a rank. -/
  | unrankedOperator (symbol : Option Text)
  /-- An infix node to be rearranged does not have two operands. -/
  | operandCount (count : Nat)
  /-- Not even one expression may be nested. -/
  | depthNotPositive (depth : Int)
  deriving DecidableEq, Repr

namespace Fault

/-- What the codes of the faults of reading characters mean. -/
def readingCodes : List (Text × Text) :=
  [("L001".toList, "Cursor advanced past end of input".toList)]

/-- An error with a code, as a diagnostic. -/
def coded (code : String) (message : Text) (location : Location) : Diagnostic :=
  ⟨message, location, Diagnostic.error, some code.toList⟩

/-- An error without a code, as a diagnostic. -/
def uncoded (message : Text) (location : Location) : Diagnostic :=
  ⟨message, location, Diagnostic.error, none⟩

/-- The diagnostic of a fault that has a place in a text. -/
def diagnostic? : Fault → Option Diagnostic
  | .overrun requested available location =>
      some (coded "L001" ("Cannot advance ".toList ++ Text.ofInt requested ++
        " characters, only ".toList ++ Text.ofInt available ++ " remain".toList) location)
  | .listStart found location =>
      some (coded "I001" ("Parenthesized expression does not start with '(' (found ".toList ++
        found.cited ++ [')']) location)
  | .unknownOperator symbol location =>
      some (coded "I002" ("Invalid operator type ".toList ++ symbol.cited) location)
  | .unhandledToken name location =>
      some (coded "I003" ("No grammar rule for token ".toList ++ name) location)
  | .reading message location => some (uncoded message location)
  | .grammar message location => some (uncoded message location)
  | .unnamedOperator _ => none
  | .unrankedOperator _ => none
  | .operandCount _ => none
  | .depthNotPositive _ => none

/-- The words for a fault that has no place in a text. -/
def bareMessage : Fault → Text
  | .unnamedOperator symbol => symbol.cited
  | .unrankedOperator (some symbol) => symbol.cited
  | .unrankedOperator none => "None".toList
  | .operandCount count => "expected 2 operands, got ".toList ++ Nat.toDigits 10 count
  | .depthNotPositive depth => "max_depth must be positive, got ".toList ++ Text.ofInt depth
  | _ => []

/-- What is told about a fault. -/
def message (fault : Fault) : Text :=
  match fault.diagnostic? with
  | some diagnostic => diagnostic.text
  | none => fault.bareMessage

end Fault

end Reckoner
