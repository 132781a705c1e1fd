import Reckoner.Text

/-!
# Operators

The operator symbols, how tightly they bind and what they are called.

* `Operator.symbols` -- in rank order, the loosest first: every symbol has a rank of its own;
* `Operator.ranks` -- each symbol with its place in that order;
* `Operator.names` -- each symbol with the name of the operation. Two spellings of one operation
  have one name.
-/

namespace Reckoner

namespace Operator

/-- The operator symbols; a later one binds tighter. -/
def symbols : List Text :=
  ["+".toList, "-".toList, "*".toList, "×".toList, "/".toList, "÷".toList, "%".toList, "^".toList,
    "**".toList, "!".toList]

/-- The rank of each symbol: its place among the symbols. -/
def ranks : List (Text × Nat) := symbols.zipIdx

/-- The name of the operation that each symbol stands for. -/
def names : List (Text × Text) :=
  [("+".toList, "add".toList), ("-".toList, "sub".toList), ("*".toList, "mul".toList),
    ("×".toList, "mul".toList), ("/".toList, "div".toList), ("÷".toList, "div".toList),
    ("%".toList, "remainder".toList), ("^".toList, "pow".toList), ("**".toList, "pow".toList),
    ("!".toList, "fac".toList)]

/-- A table without the entries of some symbols. -/
def without {α : Type} (table : List (Text × α)) (symbols : List Text) : List (Text × α) :=
  table.filter fun entry => !symbols.contains entry.1

theorem without_cons {α : Type} (symbols : List Text) (entry : Text × α)
    (rest : List (Text × α)) : without (entry :: rest) symbols =
      if entry.1 ∈ symbols then without rest symbols else entry :: without rest symbols := by
  by_cases h : entry.1 ∈ symbols <;> simp [without, h]

/-- **Without an entry a symbol is not found, and every other symbol is found as before.** -/
theorem lookup_without {α : Type} (symbols : List Text) (symbol : Text) :
    ∀ table : List (Text × α), (without table symbols).lookup symbol =
      if symbol ∈ symbols then none else table.lookup symbol
  | [] => by simp [without]
  | (key, value) :: rest => by
      have ih := lookup_without symbols symbol rest
      rw [without_cons]
      by_cases he : symbol = key
      · subst he
        by_cases hk : symbol ∈ symbols
        · simp [hk, ih]
        · simp [hk]
      · have hne : (symbol == key) = false := beq_eq_false_iff_ne.2 he
        by_cases hk : key ∈ symbols
        · simp [hk, ih, List.lookup_cons, hne]
        · simp [hk, ih, List.lookup_cons, hne]

end Operator

end Reckoner
