import Mathlib.Algebra.Field.Rat
import Mathlib.Tactic.Ring
import Reckoner.Proofs.Operands

/-!
# What groupings mean in arithmetic

Every symbol has a rank of its own, so the trees of mixed chains are not the ones that are drawn in
arithmetic, where there are two levels only. Over the rationals both have the same value.

* `Node.value` -- the value of a tree, operator by operator;
* `Chain.conventional` -- the value of a chain by the usual rules: products and quotients first,
  then sums and differences, both from left to right;
* `Node.flat`, `Node.conventional` -- the chain of a tree, with the values of its operands by the
  usual rules, and the value of that chain;
* `Grouping.value_eq_conventional_chain` -- an ordered grouping has the conventional value of its
  chain, unless it mixes the two signs of division;
* `value_eq_conventional` -- so has the tree of every text of arithmetic.
-/

namespace Reckoner

/-! ## 1. Operations -/

/-- The rational value of a number; infinities and not-a-number have none. -/
def Number.rational? : Number → Option ℚ
  | .int n => some n
  | .float (.finite negative significand exponent) =>
      let size : ℚ := significand * Binary64.upper 2 exponent / Binary64.lower 2 exponent
      some (if negative then -size else size)
  | .float _ => none

/-- An operation of arithmetic by its name. -/
def Operator.apply (name : Text) (a b : ℚ) : ℚ :=
  if name = "add".toList then a + b
  else if name = "sub".toList then a - b
  else if name = "mul".toList then a * b
  else if name = "div".toList then a / b
  else 0

/-- The symbols of arithmetic. -/
def Operator.arithmetic : List Text :=
  ["+".toList, "-".toList, "*".toList, "×".toList, "/".toList, "÷".toList]

namespace Link

/-- The link of a symbol that stands for itself. -/
def ofSymbol? (symbol : Text) : Option Link :=
  (next? symbol).filter fun link => link.symbol = symbol

@[simp] theorem ofSymbol?_symbol (link : Link) : ofSymbol? link.symbol = some link := by
  have h := next?_append link (t := []) (by simp)
  rw [List.append_nil] at h
  simp [ofSymbol?, h]

/-- The symbol is one of arithmetic. -/
def IsArithmetic (link : Link) : Prop := link.symbol ∈ Operator.arithmetic

/-- Sums and differences share the lower level. -/
def IsAdditive (link : Link) : Prop := link.symbol = "+".toList ∨ link.symbol = "-".toList

instance (link : Link) : Decidable link.IsAdditive :=
  inferInstanceAs (Decidable (_ ∨ _))

/-- What the symbol means in arithmetic. -/
def compute (link : Link) (a b : ℚ) : ℚ :=
  if link.symbol = "+".toList then a + b
  else if link.symbol = "-".toList then a - b
  else if link.symbol = "*".toList ∨ link.symbol = "×".toList then a * b
  else if link.symbol = "/".toList ∨ link.symbol = "÷".toList then a / b
  else 0

/-- The four operations, each with the ranks of its symbols. -/
inductive Means (link : Link) : Prop where
  | sum (hrank : link.rank = 0) (h : ∀ a b, link.compute a b = a + b)
  | difference (hrank : link.rank = 1) (h : ∀ a b, link.compute a b = a - b)
  | product (hrank : link.rank = 2 ∨ link.rank = 3) (h : ∀ a b, link.compute a b = a * b)
  | quotient (hrank : link.symbol = "/".toList ∧ link.rank = 4 ∨
      link.symbol = "÷".toList ∧ link.rank = 5) (h : ∀ a b, link.compute a b = a / b)

variable {link : Link}

theorem IsArithmetic.symbol_cases (h : link.IsArithmetic) :
    link.symbol = "+".toList ∨ link.symbol = "-".toList ∨ link.symbol = "*".toList ∨
      link.symbol = "×".toList ∨ link.symbol = "/".toList ∨ link.symbol = "÷".toList := by
  simpa [IsArithmetic, Operator.arithmetic] using h

theorem IsArithmetic.means (h : link.IsArithmetic) : link.Means := by
  obtain ⟨symbol, hsymbol⟩ := link
  rcases h.symbol_cases with rfl | rfl | rfl | rfl | rfl | rfl
  · exact .sum rfl fun _ _ => rfl
  · exact .difference rfl fun _ _ => rfl
  · exact .product (.inl rfl) fun _ _ => rfl
  · exact .product (.inr rfl) fun _ _ => rfl
  · exact .quotient (.inl ⟨rfl, rfl⟩) fun _ _ => rfl
  · exact .quotient (.inr ⟨rfl, rfl⟩) fun _ _ => rfl

/-- The symbols of the lower level are those of the two lowest ranks. -/
theorem isAdditive_iff : link.IsAdditive ↔ link.rank ≤ 1 := by
  obtain ⟨symbol, hsymbol⟩ := link
  have hall : ∀ symbol ∈ Token.infixSymbols, (symbol = "+".toList ∨ symbol = "-".toList) ↔
      (Operator.ranks.lookup symbol).getD 0 ≤ 1 := by decide
  exact hall symbol hsymbol

theorem isArithmetic_iff : link.IsArithmetic ↔ link.rank ≤ 5 := by
  obtain ⟨symbol, hsymbol⟩ := link
  have hall : ∀ symbol ∈ Token.infixSymbols, symbol ∈ Operator.arithmetic ↔
      (Operator.ranks.lookup symbol).getD 0 ≤ 5 := by decide
  exact hall symbol hsymbol

/-- No symbol of arithmetic binds tighter than a quotient but the other sign of division. -/
theorem IsArithmetic.rank_le_of_quotient {other : Link} (h : other.IsArithmetic)
    (hrank : link.symbol = "/".toList ∧ link.rank = 4 ∨ link.symbol = "÷".toList ∧ link.rank = 5)
    (hone : ¬ (link.symbol = "/".toList ∧ other.symbol = "÷".toList)) :
    other.rank ≤ link.rank := by
  rcases hrank with ⟨hslash, hrank⟩ | ⟨-, hrank⟩
  · cases h.means with
    | sum h => omega
    | difference h => omega
    | product h => omega
    | quotient h =>
        rcases h with ⟨-, h⟩ | ⟨hobelus, -⟩
        · omega
        · exact absurd ⟨hslash, hobelus⟩ hone
  · have hle := isArithmetic_iff.1 h
    omega

/-- The name of an operation of arithmetic means what its symbol means. -/
theorem IsArithmetic.apply_name (h : link.IsArithmetic) (a b : ℚ) :
    Operator.apply link.name a b = link.compute a b := by
  obtain ⟨symbol, hsymbol⟩ := link
  rcases h.symbol_cases with rfl | rfl | rfl | rfl | rfl | rfl <;> rfl

end Link

/-! ## 2. Chains -/

namespace Chain

/-- The value of a chain from left to right, all symbols alike. -/
def leftToRight (c : Chain ℚ) : ℚ :=
  c.rest.foldl (fun total step => step.1.compute total step.2) c.first

/-- A chain with each stretch of products and quotients taken together from left to right; what is
    left are the sums and differences between them. -/
def terms (first : ℚ) : List (Link × ℚ) → Chain ℚ
  | [] => .single first
  | (link, x) :: rest =>
      if link.IsAdditive then (terms x rest).cons first link
      else terms (link.compute first x) rest

/-- The value of a chain by the usual rules of arithmetic. -/
def conventional (c : Chain ℚ) : ℚ := (terms c.first c.rest).leftToRight

@[simp] theorem conventional_single (x : ℚ) : (single x).conventional = x := rfl

theorem leftToRight_append (a b : Chain ℚ) (link : Link) : (a.append link b).leftToRight =
    b.rest.foldl (fun total step => step.1.compute total step.2)
      (link.compute a.leftToRight b.first) := by
  simp [leftToRight, append, List.foldl_append]

theorem terms_append {link : Link} (hlink : link.IsAdditive) (b : Chain ℚ) (first : ℚ)
    (rest : List (Link × ℚ)) : terms first (rest ++ (link, b.first) :: b.rest) =
      (terms first rest).append link (terms b.first b.rest) := by
  induction rest generalizing first with
  | nil => simp [terms, hlink, cons, append, single]
  | cons step rest ih =>
      obtain ⟨upper, x⟩ := step
      rw [List.cons_append, terms, terms]
      split
      · rw [ih]
        rfl
      · rw [ih]

/-- Only sums and differences are left between the terms. -/
theorem isAdditive_of_mem_terms (first : ℚ) (rest : List (Link × ℚ)) :
    ∀ step ∈ (terms first rest).rest, step.1.IsAdditive := by
  induction rest generalizing first with
  | nil => simp [terms, single]
  | cons step rest ih =>
      obtain ⟨link, x⟩ := step
      rw [terms]
      split
      · rename_i hlink
        exact List.forall_mem_cons.2 ⟨hlink, ih x⟩
      · exact ih _

/-- A chain of products and quotients is one term. -/
theorem terms_of_not_additive (first : ℚ) {rest : List (Link × ℚ)}
    (h : ∀ step ∈ rest, ¬ step.1.IsAdditive) :
    terms first rest = single (leftToRight ⟨first, rest⟩) := by
  induction rest generalizing first with
  | nil => rfl
  | cons step rest ih =>
      obtain ⟨hlink, hrest⟩ := List.forall_mem_cons.1 h
      rw [terms, if_neg hlink, ih _ hrest]
      rfl

theorem conventional_of_not_additive {c : Chain ℚ} (h : ∀ step ∈ c.rest, ¬ step.1.IsAdditive) :
    c.conventional = c.leftToRight := by
  rw [conventional, terms_of_not_additive c.first h]
  rfl

/-- What is added in front of sums and differences is added to their value. -/
theorem foldl_add {rest : List (Link × ℚ)} (h : ∀ step ∈ rest, step.1.IsAdditive) (x y : ℚ) :
    rest.foldl (fun total step => step.1.compute total step.2) (x + y) =
      x + rest.foldl (fun total step => step.1.compute total step.2) y := by
  induction rest generalizing y with
  | nil => rfl
  | cons step rest ih =>
      obtain ⟨hlink, hrest⟩ := List.forall_mem_cons.1 h
      have hrank := Link.isAdditive_iff.1 hlink
      rw [List.foldl_cons, List.foldl_cons, ← ih hrest]
      congr 1
      cases (Link.isArithmetic_iff.2 (by omega : step.1.rank ≤ 5)).means with
      | sum _ hmeans => rw [hmeans, hmeans, add_assoc]
      | difference _ hmeans => rw [hmeans, hmeans, add_sub_assoc]
      | product hproduct => omega
      | quotient hquotient => omega

/-- What is multiplied in front of products and quotients is multiplied with their value. -/
theorem foldl_mul {rest : List (Link × ℚ)}
    (h : ∀ step ∈ rest, step.1.IsArithmetic ∧ ¬ step.1.IsAdditive) (x y : ℚ) :
    rest.foldl (fun total step => step.1.compute total step.2) (x * y) =
      x * rest.foldl (fun total step => step.1.compute total step.2) y := by
  induction rest generalizing y with
  | nil => rfl
  | cons step rest ih =>
      obtain ⟨⟨hlink, hnot⟩, hrest⟩ := List.forall_mem_cons.1 h
      rw [Link.isAdditive_iff] at hnot
      rw [List.foldl_cons, List.foldl_cons, ← ih hrest]
      congr 1
      cases hlink.means with
      | sum hsum => omega
      | difference hdifference => omega
      | product _ hmeans => rw [hmeans, hmeans, mul_assoc]
      | quotient _ hmeans => rw [hmeans, hmeans, mul_div_assoc]

/-- Behind a sum or a difference the terms of the chain are those of both sides. -/
theorem conventional_append_of_additive {link : Link} (hlink : link.IsAdditive) (a b : Chain ℚ) :
    (a.append link b).conventional =
      (terms b.first b.rest).rest.foldl (fun total step => step.1.compute total step.2)
        (link.compute a.conventional (terms b.first b.rest).first) := by
  have hterms : terms (a.append link b).first (a.append link b).rest =
      (terms a.first a.rest).append link (terms b.first b.rest) := terms_append hlink b _ _
  rw [conventional, hterms, leftToRight_append]
  rfl

theorem conventional_append_sum {link : Link} (hlink : link.IsAdditive)
    (hmeans : ∀ x y, link.compute x y = x + y) (a b : Chain ℚ) :
    (a.append link b).conventional = a.conventional + b.conventional := by
  rw [conventional_append_of_additive hlink, hmeans,
    foldl_add (isAdditive_of_mem_terms b.first b.rest)]
  rfl

theorem conventional_append_difference {link : Link} (hlink : link.IsAdditive)
    (hmeans : ∀ x y, link.compute x y = x - y) (a : Chain ℚ) {b : Chain ℚ}
    (hb : ∀ step ∈ b.rest, ¬ step.1.IsAdditive) :
    (a.append link b).conventional = a.conventional - b.conventional := by
  rw [conventional_append_of_additive hlink, hmeans, conventional_of_not_additive hb,
    terms_of_not_additive b.first hb]
  rfl

/-- Chains of products and quotients with a symbol of their level between them. -/
theorem conventional_append_of_not_additive {link : Link} (hlink : ¬ link.IsAdditive)
    {a b : Chain ℚ} (ha : ∀ step ∈ a.rest, ¬ step.1.IsAdditive)
    (hb : ∀ step ∈ b.rest, ¬ step.1.IsAdditive) :
    (a.append link b).conventional =
      b.rest.foldl (fun total step => step.1.compute total step.2)
        (link.compute a.conventional b.first) := by
  have hall : ∀ step ∈ (a.append link b).rest, ¬ step.1.IsAdditive := by
    intro step hstep
    rcases List.mem_append.1 hstep with hstep | hstep
    · exact ha step hstep
    · rcases List.mem_cons.1 hstep with rfl | hstep
      · exact hlink
      · exact hb step hstep
  rw [conventional_of_not_additive ha, ← leftToRight_append, conventional_of_not_additive hall]

end Chain

/-! ## 3. Groupings -/

/-- The two signs of division are not mixed. -/
def OneDivision (symbols : List Text) : Prop :=
  ¬ ("/".toList ∈ symbols ∧ "÷".toList ∈ symbols)

theorem OneDivision.mono {symbols symbols' : List Text} (h : OneDivision symbols)
    (hsub : symbols' ⊆ symbols) : OneDivision symbols' :=
  fun hboth => h ⟨hsub hboth.1, hsub hboth.2⟩

namespace Grouping

/-- The value of a grouping, operator by operator. -/
def value : Grouping ℚ → ℚ
  | .operand x => x
  | .join link left right => link.compute left.value right.value

theorem rest_eq_nil_of_rank {g : Grouping ℚ} (ho : g.Ordered) {n : Nat}
    (hrank : ∀ r ∈ g.rank?, n < r) (hnone : ∀ step ∈ g.chain.rest, step.1.rank ≤ n) :
    g.chain.rest = [] := by
  rw [List.eq_nil_iff_forall_not_mem]
  intro step hstep
  have hlow := hnone step hstep
  have hhigh := ho.le_rank (n := n + 1) hrank step hstep
  omega

/-- **An ordered grouping has the conventional value of its chain**, unless both signs of division
    stand in it: the tighter one of them would be taken before the looser one. -/
theorem value_eq_conventional_chain {g : Grouping ℚ} (ho : g.Ordered)
    (harithmetic : ∀ step ∈ g.chain.rest, step.1.IsArithmetic)
    (hone : OneDivision (g.chain.rest.map fun step => step.1.symbol)) :
    g.value = g.chain.conventional := by
  induction g with
  | operand x => rfl
  | join link left right ihl ihr =>
      obtain ⟨hl, hr, hol, hor⟩ := ho
      simp only [chain, Chain.append, List.forall_mem_append, List.forall_mem_cons] at harithmetic
      obtain ⟨hleft, hlink, hright⟩ := harithmetic
      simp only [chain, Chain.append, List.map_append, List.map_cons] at hone
      have ihl := ihl hol hleft (hone.mono (List.subset_append_left _ _))
      have ihr := ihr hor hright
        (hone.mono (List.Subset.trans (List.subset_cons_self _ _) (List.subset_append_right _ _)))
      have hlow := hol.le_rank hl
      have hhigh := hor.le_rank (n := link.rank + 1) hr
      -- what stands to the right of a difference binds tighter, so it is on the upper level
      have hnot : ∀ step ∈ right.chain.rest, 1 ≤ link.rank → ¬ step.1.IsAdditive := by
        intro step hstep hrank hadditive
        have h₁ := hhigh step hstep
        have h₂ := Link.isAdditive_iff.1 hadditive
        omega
      have hnot' : ∀ step ∈ left.chain.rest, 2 ≤ link.rank → ¬ step.1.IsAdditive := by
        intro step hstep hrank hadditive
        have h₁ := hlow step hstep
        have h₂ := Link.isAdditive_iff.1 hadditive
        omega
      rw [value, chain, ihl, ihr]
      cases hlink.means with
      | sum hrank hmeans =>
          have hsum : link.IsAdditive := Link.isAdditive_iff.2 (by omega)
          rw [hmeans, Chain.conventional_append_sum hsum hmeans]
      | difference hrank hmeans =>
          have hdifference : link.IsAdditive := Link.isAdditive_iff.2 (by omega)
          rw [hmeans, Chain.conventional_append_difference hdifference hmeans _
            fun step hstep => hnot step hstep (by omega)]
      | product hrank hmeans =>
          have hproduct : ¬ link.IsAdditive := by
            rw [Link.isAdditive_iff]
            omega
          have hterm : ∀ step ∈ right.chain.rest, ¬ step.1.IsAdditive := fun step hstep =>
            hnot step hstep (by omega)
          rw [Chain.conventional_append_of_not_additive hproduct
            (fun step hstep => hnot' step hstep (by omega)) hterm, hmeans, hmeans,
            Chain.foldl_mul fun step hstep => ⟨hright step hstep, hterm step hstep⟩,
            Chain.conventional_of_not_additive hterm]
          rfl
      | quotient hrank hmeans =>
          have hquotient : ¬ link.IsAdditive := by
            rw [Link.isAdditive_iff]
            omega
          have hnil : right.chain.rest = [] := by
            refine rest_eq_nil_of_rank hor hr fun step hstep =>
              (hright step hstep).rank_le_of_quotient hrank ?_
            rintro ⟨hslash, hobelus⟩
            refine hone ⟨List.mem_append_right _ (hslash ▸ List.mem_cons_self), ?_⟩
            exact List.mem_append_right _
              (List.mem_cons_of_mem _ (List.mem_map.2 ⟨step, hstep, hobelus⟩))
          have hsingle : right.chain = .single right.chain.first := Chain.ext rfl hnil
          rw [hsingle, Chain.conventional_single, Chain.conventional_append_of_not_additive
            hquotient (fun step hstep => hnot' step hstep (by omega)) (by simp [Chain.single]),
            hmeans, hmeans]
          rfl

end Grouping

/-! ## 4. Trees -/

/-- The rational value of the number of a label. -/
def Label.rational (label : Label) : ℚ := (label.number?.bind Number.rational?).getD 0

namespace Node

/-- The value of a tree over the rationals, operator by operator. A list of one item has the value
    of the item; what is not arithmetic has the value zero. -/
def value : Node → ℚ
  | .mk label [] => label.rational
  | .mk label [item] => if label.kind = .paren then item.value else 0
  | .mk label [first, second] =>
      if label.isInfix then
        Operator.apply (label.operator?.getD []) first.value second.value
      else 0
  | _ => 0

/-- The chain of a tree, taken apart at its infix symbols wherever they are grouped. A list of one
    item counts as an operand, with the value that it has by the usual rules. -/
def flat : Node → Chain ℚ
  | .mk label [] => .single label.rational
  | .mk label [item] => .single (if label.kind = .paren then item.flat.conventional else 0)
  | .mk label [first, second] =>
      if label.isInfix then
        match label.symbol?.bind Link.ofSymbol? with
        | some link => first.flat.append link second.flat
        | none => .single 0
      else .single 0
  | _ => .single 0

/-- The value of a tree by the usual rules of arithmetic, whatever its grouping. -/
def conventional (n : Node) : ℚ := n.flat.conventional

/-- A number with a rational value, a list of one item, or one of the symbols of arithmetic between
    two operands. -/
def isArithmetic (n : Node) : Bool :=
  match n.kind with
  | .number => (n.label.number?.bind Number.rational?).isSome
  | .paren => n.children.length = 1
  | .infixOp => n.label.symbol?.any fun symbol => Operator.arithmetic.contains symbol
  | _ => false

theorem kind_of_isArithmetic {n : Node} (h : n.isArithmetic = true) :
    n.kind = .number ∨ n.kind = .paren ∨ n.kind = .infixOp := by
  unfold isArithmetic at h
  cases hkind : n.kind <;> simp [hkind] at h ⊢

theorem value_shape : ∀ n : Node, n.shape.value = n.value
  | .mk label [] => by rw [shape_mk]; rfl
  | .mk label [item] => by
      rw [shape_mk, List.map_singleton, value, value, value_shape item]
      rfl
  | .mk label [first, second] => by
      rw [shape_mk, List.map_cons, List.map_singleton, value, value, value_shape first,
        value_shape second]
      rfl
  | .mk label (first :: second :: third :: others) => by rw [shape_mk]; rfl

theorem flat_shape : ∀ n : Node, n.shape.flat = n.flat
  | .mk label [] => by rw [shape_mk]; rfl
  | .mk label [item] => by
      rw [shape_mk, List.map_singleton, flat, flat, flat_shape item]
      rfl
  | .mk label [first, second] => by
      rw [shape_mk, List.map_cons, List.map_singleton, flat, flat, flat_shape first,
        flat_shape second]
      rfl
  | .mk label (first :: second :: third :: others) => by rw [shape_mk]; rfl

theorem isArithmetic_shape (n : Node) : n.shape.isArithmetic = n.isArithmetic := by
  unfold isArithmetic
  rw [kind_shape, children_shape, List.length_map]
  obtain ⟨label, children⟩ := n
  rw [shape_mk]
  rfl

theorem isArithmetic_binary {link : Link} {first second : Node} :
    (binary link first second).isArithmetic = true ↔ link.IsArithmetic := by
  simp [isArithmetic, binary, kind, Label.bare, Label.plain, Link.IsArithmetic]

end Node

/-! ## 5. Groupings of trees -/

namespace Grouping

variable {g : Grouping Node}

theorem arithmetic_of_shape (h : g.shape.Throughout (·.isArithmetic)) :
    (∀ p ∈ g.chain.operands, p.Throughout (·.isArithmetic)) ∧
      ∀ step ∈ g.chain.rest, step.1.IsArithmetic := by
  induction g with
  | operand p => exact ⟨List.forall_mem_singleton.2 h, List.forall_mem_nil _⟩
  | join link left right ihl ihr =>
      have hlink := Node.isArithmetic_binary.1 h.self
      have hchildren : left.shape.Throughout (·.isArithmetic) ∧
          right.shape.Throughout (·.isArithmetic) := by
        simpa [shape, Node.binary] using h.children
      obtain ⟨hl, hleft⟩ := ihl hchildren.1
      obtain ⟨hr, hright⟩ := ihr hchildren.2
      rw [chain, Chain.operands_append]
      exact ⟨List.forall_mem_append.2 ⟨hl, hr⟩,
        List.forall_mem_append.2 ⟨hleft, List.forall_mem_cons.2 ⟨hlink, hright⟩⟩⟩

theorem value_shape (h : ∀ step ∈ g.chain.rest, step.1.IsArithmetic) :
    g.shape.value = (g.map Node.value).value := by
  induction g with
  | operand p => rfl
  | join link left right ihl ihr =>
      simp only [chain, Chain.append, List.forall_mem_append, List.forall_mem_cons] at h
      obtain ⟨hleft, hlink, hright⟩ := h
      rw [map, value, ← ihl hleft, ← ihr hright, ← hlink.apply_name]
      rfl

/-- A tree whose operands count as one value each is taken apart into the chain of its grouping. -/
theorem flat_shape (h : ∀ p ∈ g.chain.operands, p.flat = .single p.value) :
    g.shape.flat = (g.map Node.value).chain := by
  induction g with
  | operand p => exact h p List.mem_cons_self
  | join link left right ihl ihr =>
      rw [chain, Chain.operands_append, List.forall_mem_append] at h
      have hflat : (join link left right).shape.flat =
          left.shape.flat.append link right.shape.flat := by
        simp [shape, Node.binary, Node.flat, Label.bare, Label.plain, Label.isInfix]
      rw [hflat, ihl h.1, ihr h.2, map, chain]

/-- **A tree over a grouping has the conventional value** if its operands have. -/
theorem value_eq_conventional_shape (ho : g.Ordered)
    (hlinks : ∀ step ∈ g.chain.rest, step.1.IsArithmetic)
    (hone : OneDivision (g.chain.rest.map fun step => step.1.symbol))
    (hoperands : ∀ p ∈ g.chain.operands, p.flat = .single p.value) :
    g.shape.value = g.shape.conventional := by
  rw [value_shape hlinks, Node.conventional, flat_shape hoperands]
  have hsteps : (g.map Node.value).chain.rest =
      g.chain.rest.map fun step => (step.1, step.2.value) := by
    rw [chain_map]
    rfl
  refine value_eq_conventional_chain (ho.map Node.value) ?_ ?_
  · rw [hsteps, List.forall_mem_map]
    exact hlinks
  · rwa [hsteps, List.map_map]

end Grouping

/-! ## 6. Phrases -/

mutual

/-- An operand of arithmetic counts as one value, also when it is a list. -/
theorem Operand.flat_tree : ∀ p : Operand,
    p.tree.Throughout (·.isArithmetic) → OneDivision p.tokens →
      p.tree.flat = .single p.tree.value
  | .number x, _, _ => rfl
  | .list (.last e), h, hone => by
      have hitem : e.tree.value = e.tree.conventional :=
        e.value_eq_conventional_tree (h.children _ List.mem_cons_self)
          (hone.mono (List.Subset.trans (List.subset_append_left _ _) (List.subset_cons_self _ _)))
      exact congrArg Chain.single hitem.symm
  | .list (.more e rest), h, _ => by
      have hone := h.self
      cases rest <;> simp [Operand.tree, Node.list, Node.isArithmetic, Node.kind, Label.bare,
        Label.plain, Entries.trees] at hone
  | .call name entries, h, _ => by
      have hkind : Node.functionKind name.1 = .number ∨ Node.functionKind name.1 = .paren ∨
          Node.functionKind name.1 = .infixOp := Node.kind_of_isArithmetic h.self
      rcases Node.isFunction_functionKind name.1 with hfunction | hfunction <;>
        simp [hfunction] at hkind

theorem Phrase.flat_operands {whole : Bool} : ∀ e : Phrase whole,
    (∀ p ∈ e.grouping.chain.operands, p.Throughout (·.isArithmetic)) →
      OneDivision e.tokens → ∀ p ∈ e.grouping.chain.operands, p.flat = .single p.value
  | .omitted, h, _ => absurd (h Node.hole List.mem_cons_self).self (by decide)
  | .operand p, h, hone =>
      List.forall_mem_singleton.2 (p.flat_tree (h p.tree List.mem_cons_self) hone)
  | .signed sign rest, h, _ => by
      have hkind : Node.Kind.prefixOp = .number ∨ Node.Kind.prefixOp = .paren ∨
          Node.Kind.prefixOp = .infixOp :=
        Node.kind_of_isArithmetic (h (Node.signed sign.1 rest.tree) List.mem_cons_self).self
      simp at hkind
  | .linked p link rest, h, hone => by
      rw [Phrase.grouping, Grouping.chain_settle] at h ⊢
      obtain ⟨hp, hrest⟩ := List.forall_mem_cons.1 h
      refine List.forall_mem_cons.2 ⟨p.flat_tree hp (hone.mono (List.subset_append_left _ _)), ?_⟩
      exact rest.flat_operands hrest (hone.mono
        (List.Subset.trans (List.subset_cons_self _ _) (List.subset_append_right _ _)))

theorem Phrase.value_eq_conventional_tree {whole : Bool} (e : Phrase whole)
    (h : e.tree.Throughout (·.isArithmetic)) (hone : OneDivision e.tokens) :
    e.tree.value = e.tree.conventional := by
  obtain ⟨hoperands, hlinks⟩ := Grouping.arithmetic_of_shape h
  exact Grouping.value_eq_conventional_shape e.ordered hlinks (hone.mono e.symbols_subset)
    (e.flat_operands hoperands hone)

end

/-! ## 7. Texts -/

/-- The characters of the tokens of a text are characters of the text. -/
theorem Spaced.mem {tokens : List Text} {t : Text} (h : Spaced tokens t) {x : Text}
    (hx : x ∈ tokens) : ∀ c ∈ x, c ∈ t := by
  induction tokens generalizing t with
  | nil => exact absurd hx List.not_mem_nil
  | cons y tokens ih =>
      obtain ⟨blank, next, -, rfl, hnext⟩ := h
      intro c hc
      rcases List.mem_cons.1 hx with rfl | hx
      · exact List.mem_append_right _ (List.mem_append_left _ hc)
      · exact List.mem_append_right _ (List.mem_append_right _ (ih hnext hx c hc))

/-- **Grouping preserves the meaning of arithmetic.** A text that is read without a report as
    numbers, lists of one item and the symbols of arithmetic between them, and that does not use
    both signs of division, has a tree with the same value as the usual rules give its chains. -/
theorem value_eq_conventional (limit : NestingLimit) (source : Text) {p : Parse}
    (hparse : parse ⟨limit, Dialect.standard⟩ source = .ok p) (hsilent : p.hasErrors = false)
    (harithmetic : ∀ n ∈ p.root.walk, n.isArithmetic) (hone : ¬ ('/' ∈ source ∧ '÷' ∈ source)) :
    p.root.value = p.root.conventional := by
  obtain ⟨e, hspaced, -, hshape⟩ := exists_phrase_of_parse hparse hsilent
  have htokens : OneDivision e.tokens := fun ⟨hslash, hobelus⟩ =>
    hone ⟨hspaced.mem hslash '/' (by decide), hspaced.mem hobelus '÷' (by decide)⟩
  have htree : e.tree.Throughout (·.isArithmetic) := by
    rw [← hshape]
    exact Node.Throughout.shape (by simp [Node.isArithmetic_shape])
      (Node.forall_mem_walk.1 harithmetic)
  rw [← Node.value_shape, Node.conventional, ← Node.flat_shape, hshape]
  exact e.value_eq_conventional_tree htree htokens

/-- The difference is put below the sum here and the quotient below the product; the value is that
    of the terms from left to right. -/
theorem value_eq_conventional_sample : ∃ p,
    parse Settings.standard "7-2*(1-4)/3+6/4*2-5".toList = .ok p ∧
      p.root.value = 7 ∧ p.root.conventional = 7 := by
  have hsample : (parse Settings.standard "7-2*(1-4)/3+6/4*2-5".toList).toOption.map
      (fun p => (p.hasErrors, p.root.all Node.isArithmetic, p.root.value)) =
        some (false, true, 7) := by decide +kernel
  obtain ⟨g, s', -, hparse⟩ := exists_parse NestingLimit.standard "7-2*(1-4)/3+6/4*2-5".toList
  generalize (⟨g.node s'.source, s'.finished⟩ : Parse) = p at hparse
  change parse Settings.standard _ = _ at hparse
  rw [hparse] at hsample
  simp only [Except.toOption, Option.map_some, Option.some.injEq, Prod.mk.injEq] at hsample
  obtain ⟨hsilent, harithmetic, hvalue⟩ := hsample
  refine ⟨p, hparse, hvalue, ?_⟩
  rw [← hvalue]
  exact (value_eq_conventional NestingLimit.standard _ hparse hsilent
    (Node.forall_mem_walk.2 ((Node.all_iff _).1 harithmetic)) (by decide)).symm

end Reckoner
