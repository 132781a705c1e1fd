import Reckoner.Text.Word

/-!
# Names of the built-in functions

* `Keyword.binary`, `Keyword.unary` -- the functions of two arguments and of one;
* `Keyword.endsAt` -- a keyword ends where no word character follows;
* `Keyword.match?` -- the first keyword of a table that stands at the start of a text and ends
  there. Shorter names stand before longer ones that begin with them, and the end decides.
-/

namespace Reckoner

namespace Keyword

/-- The functions of two arguments. -/
def binary : List Text :=
  ["rootn".toList, "dim".toList, "atan2".toList, "gammaInc".toList, "beta".toList, "jn".toList,
    "yn".toList, "agm".toList, "hypot".toList, "fmod".toList, "remainder".toList, "min".toList,
    "max".toList]

/-- The functions of one argument. -/
def unary : List Text :=
  ["sqr".toList, "sqrt".toList, "recSqrt".toList, "cbrt".toList, "neg".toList, "abs".toList,
    "log".toList, "ln".toList, "log2".toList, "log10".toList, "log1p".toList, "exp".toList,
    "exp2".toList, "exp10".toList, "expm1".toList,
    "cos".toList, "sin".toList, "tan".toList, "sec".toList, "csc".toList, "cot".toList,
    "acos".toList, "asin".toList, "atan".toList,
    "cosh".toList, "sinh".toList, "tanh".toList, "sech".toList, "csch".toList, "coth".toList,
    "acosh".toList, "asinh".toList, "atanh".toList,
    "fac".toList, "factorial".toList, "eint".toList, "li2".toList, "gamma".toList,
    "lngamma".toList, "digamma".toList, "zeta".toList,
    "erf".toList, "erfc".toList, "j0".toList, "j1".toList, "y0".toList, "y1".toList,
    "rint".toList, "rintCeil".toList, "rintFloor".toList, "rintRound".toList,
    "rintRoundeven".toList, "rintTrunc".toList,
    "frac".toList]

/-- Whether a keyword may end before this text: no word character follows. -/
def endsAt : Text → Bool
  | [] => true
  | c :: _ => !Text.isWord c

/-- Whether a keyword stands at the start of a text and ends there. -/
def standsAt (t keyword : Text) : Bool :=
  keyword.isPrefixOf t && endsAt (t.drop keyword.length)

/-- The first keyword of a table that stands at the start of a text. -/
def match? (table : List Text) (t : Text) : Option Text :=
  table.find? (standsAt t)

end Keyword

end Reckoner
