import Reckoner.Location

/-!
# Diagnostics

What is told about a place in a text.

* `Diagnostic` -- a message with a location, a severity and perhaps a code;
* `Diagnostic.text` -- the severity in capitals and the message on the first line, the location on
  the second, and on a third one the code, if there is one and it is not empty.
-/

namespace Reckoner

/-- A message about a place in a text. -/
structure Diagnostic where
  message : Text
  location : Location
  severity : Text
  code? : Option Text
  deriving DecidableEq, Repr

namespace Diagnostic

/-- The severity of every problem and every fault. -/
def error : Text := "error".toList

/-- The line that shows the code. -/
def codeLine : Option Text → Text
  | none => []
  | some [] => []
  | some code => "  code: ".toList ++ code ++ ['\n']

/-- The diagnostic as lines. -/
def text (d : Diagnostic) : Text :=
  d.severity.map Char.toUpper ++ ": ".toList ++ d.message ++ "\n  --> ".toList ++
    d.location.text ++ '\n' :: codeLine d.code?

end Diagnostic

end Reckoner
