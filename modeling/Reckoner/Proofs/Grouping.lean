import Reckoner.Dialect

/-!
# Chains and how they group

Operands joined by infix symbols form a chain; a grouping says which operator takes which operands.
Two ways from a chain to a grouping are compared:

* `Grouping.settle`, `Chain.regrouped` -- from the right: each operator is put in front of what has
  been grouped behind it and sinks to the left as far as the ranks ask for;
* `Chain.climbed` -- from the left, by precedence climbing: an operator's right operand takes all
  that binds tighter, and operators of one rank take their operands from the left.

Both keep the chain as it is (`chain_settle`, `chain_climbed`) and give an ordered grouping, and
`Grouping.Ordered.unique` leaves only one of these: `regrouped_eq_climbed`.
-/

namespace Reckoner

/-! ## 1. Links -/

/-- The nine symbols that may stand between two operands. -/
def Token.infixSymbols : List Text := ['*', '*'] :: Token.shortInfixSymbols.map fun c => [c]

theorem Token.oneOf_eq_some {set t x : Text} :
    Token.oneOf set t = some x ↔ ∃ c rest, t = c :: rest ∧ c ∈ set ∧ x = [c] := by
  cases t with
  | nil => simp [oneOf]
  | cons c rest =>
      by_cases hc : c ∈ set
      · simp [oneOf, hc, eq_comm]
      · simp [oneOf, hc]

theorem Token.mem_of_infixSymbol? {t o : Text} (h : Token.infixSymbol? t = some o) :
    o ∈ Token.infixSymbols := by
  unfold infixSymbol? at h
  split at h
  · obtain rfl := Option.some.inj h
    exact List.mem_cons_self
  · obtain ⟨c, rest, -, hc, rfl⟩ := Token.oneOf_eq_some.1 h
    exact List.mem_cons_of_mem _ (List.mem_map.2 ⟨c, hc, rfl⟩)

/-- An infix symbol between two operands. -/
structure Link where
  symbol : Text
  isInfix : symbol ∈ Token.infixSymbols
  deriving DecidableEq, Repr

namespace Link

/-- The infix symbol at the start of a text. -/
def next? (t : Text) : Option Link :=
  (Token.infixSymbol? t).bind fun o =>
    if h : o ∈ Token.infixSymbols then some ⟨o, h⟩ else none

theorem map_symbol_next? (t : Text) : (next? t).map symbol = Token.infixSymbol? t := by
  unfold next?
  cases h : Token.infixSymbol? t with
  | none => rfl
  | some o => simp [Token.mem_of_infixSymbol? h]

/-- How tightly the symbol binds. -/
def rank (link : Link) : Nat := (Operator.ranks.lookup link.symbol).getD 0

/-- What the operation is called. -/
def name (link : Link) : Text := (Operator.names.lookup link.symbol).getD []

theorem rank?_symbol (link : Link) : Dialect.standard.rank? link.symbol = some link.rank := by
  have h : ∀ o ∈ Token.infixSymbols,
      Dialect.standard.rank? o = some ((Operator.ranks.lookup o).getD 0) := by decide
  exact h link.symbol link.isInfix

theorem name?_symbol (link : Link) : Dialect.standard.name? link.symbol = some link.name := by
  have h : ∀ o ∈ Token.infixSymbols,
      Dialect.standard.name? o = some ((Operator.names.lookup o).getD []) := by decide
  exact h link.symbol link.isInfix

end Link

/-! ## 2. Chains and groupings -/

/-- Operands and the symbols between them, in the order of the text. -/
@[ext]
structure Chain (α : Type) where
  first : α
  rest : List (Link × α)

/-- A chain with its operands taken together two by two. -/
inductive Grouping (α : Type) where
  | operand (p : α)
  | join (link : Link) (left right : Grouping α)

variable {α : Type}

namespace Chain

/-- The operands alone. -/
def operands (c : Chain α) : List α := c.first :: c.rest.map (·.2)

/-- A chain of one operand. -/
def single (p : α) : Chain α := ⟨p, []⟩

/-- One more operand and its symbol in front of a chain. -/
def cons (p : α) (link : Link) (c : Chain α) : Chain α := ⟨p, (link, c.first) :: c.rest⟩

/-- Two chains with a symbol between them. -/
def append (a : Chain α) (link : Link) (b : Chain α) : Chain α :=
  ⟨a.first, a.rest ++ (link, b.first) :: b.rest⟩

theorem operands_append (a b : Chain α) (link : Link) :
    (a.append link b).operands = a.operands ++ b.operands := by
  simp [operands, append]

end Chain

namespace Grouping

/-- The operands and symbols in the order of the text. -/
def chain : Grouping α → Chain α
  | .operand p => .single p
  | .join link left right => left.chain.append link right.chain

/-- The rank of the outermost symbol. -/
def rank? : Grouping α → Option Nat
  | .operand _ => none
  | .join link _ _ => some link.rank

/-- An operator to the left binds at least as tight as the one above it, an operator to the right
    binds tighter. -/
def Ordered : Grouping α → Prop
  | .operand _ => True
  | .join link left right =>
      (∀ r ∈ left.rank?, link.rank ≤ r) ∧ (∀ r ∈ right.rank?, link.rank < r) ∧
        left.Ordered ∧ right.Ordered

/-- In an ordered grouping no symbol binds looser than the outermost one. -/
theorem Ordered.le_rank {g : Grouping α} (hg : g.Ordered) {n : Nat}
    (hn : ∀ r ∈ g.rank?, n ≤ r) : ∀ step ∈ g.chain.rest, n ≤ step.1.rank := by
  induction g generalizing n with
  | operand p => intro step hs; simp [chain, Chain.single] at hs
  | join link left right ihl ihr =>
      obtain ⟨hl, hr, hol, hor⟩ := hg
      have hlink : n ≤ link.rank := hn _ rfl
      intro step hs
      rcases List.mem_append.1 hs with hs | hs
      · exact Nat.le_trans hlink (ihl hol hl step hs)
      · rcases List.mem_cons.1 hs with rfl | hs
        · exact hlink
        · exact Nat.le_trans hlink (ihr hor (fun r h => Nat.le_of_lt (hr r h)) step hs)

/-- The outermost symbol of an ordered grouping cannot stand further to the right in another one
    with the same chain: there it would have to bind looser than itself. -/
theorem Ordered.not_split {l l' : Link} {a b a' b' : Grouping α} (h : (join l a b).Ordered)
    (h' : (join l' a' b').Ordered) {between : List (Link × α)}
    (hleft : a'.chain.rest = a.chain.rest ++ (l, b.chain.first) :: between)
    (hright : b.chain.rest = between ++ (l', b'.chain.first) :: b'.chain.rest) : False := by
  obtain ⟨-, hb, -, hob⟩ := h
  obtain ⟨ha', -, hoa', -⟩ := h'
  have h1 : l.rank + 1 ≤ l'.rank :=
    hob.le_rank (fun r hr => hb r hr) (l', b'.chain.first) (by simp [hright])
  have h2 : l'.rank ≤ l.rank := hoa'.le_rank ha' (l, b.chain.first) (by simp [hleft])
  omega

/-- Two ordered groupings of one chain have their outermost symbol at the same place. -/
theorem Ordered.left_eq {l l' : Link} {a b a' b' : Grouping α} (h : (join l a b).Ordered)
    (h' : (join l' a' b').Ordered)
    (hrest : a.chain.rest ++ (l, b.chain.first) :: b.chain.rest =
      a'.chain.rest ++ (l', b'.chain.first) :: b'.chain.rest) : a.chain.rest = a'.chain.rest := by
  rcases List.append_eq_append_iff.1 hrest with ⟨c, hc1, hc2⟩ | ⟨c, hc1, hc2⟩
  · cases c with
    | nil => simpa using hc1.symm
    | cons step c =>
        obtain ⟨rfl, hbr⟩ := List.cons.inj hc2
        exact (Ordered.not_split h h' hc1 hbr).elim
  · cases c with
    | nil => simpa using hc1
    | cons step c =>
        obtain ⟨rfl, hbr⟩ := List.cons.inj hc2
        exact (Ordered.not_split h' h hc1 hbr).elim

/-- **A chain has only one ordered grouping.** -/
theorem Ordered.unique {g h : Grouping α} (hg : g.Ordered) (hh : h.Ordered)
    (hc : g.chain = h.chain) : g = h := by
  induction g generalizing h with
  | operand p =>
      cases h with
      | operand q => simpa [chain, Chain.single] using hc
      | join l' a' b' => simp [chain, Chain.single, Chain.append] at hc
  | join l a b iha ihb =>
      cases h with
      | operand q => simp [chain, Chain.single, Chain.append] at hc
      | join l' a' b' =>
          obtain ⟨hfirst, hrest⟩ : a.chain.first = a'.chain.first ∧
              a.chain.rest ++ (l, b.chain.first) :: b.chain.rest =
                a'.chain.rest ++ (l', b'.chain.first) :: b'.chain.rest := by
            simpa [chain, Chain.append] using hc
          have hleft := Ordered.left_eq hg hh hrest
          rw [hleft, List.append_cancel_left_eq] at hrest
          simp only [List.cons.injEq, Prod.mk.injEq] at hrest
          obtain ⟨⟨rfl, hbf⟩, hbr⟩ := hrest
          rw [iha hg.2.2.1 hh.2.2.1 (Chain.ext hfirst hleft),
            ihb hg.2.2.2 hh.2.2.2 (Chain.ext hbf hbr)]

/-! ## 3. From the right -/

/-- An operator and its left operand in front of a grouping; it sinks to the left as long as the
    operator met there does not bind tighter. -/
def settle (link : Link) (first : Grouping α) : Grouping α → Grouping α
  | .operand p => .join link first (.operand p)
  | .join upper left right =>
      if link.rank < upper.rank then .join link first (.join upper left right)
      else .join upper (settle link first left) right

@[simp] theorem chain_settle (link : Link) (p : α) (g : Grouping α) :
    (settle link (.operand p) g).chain = g.chain.cons p link := by
  induction g with
  | operand q => rfl
  | join upper left right ihl _ =>
      unfold settle
      split
      · rfl
      · simp [chain, ihl, Chain.append, Chain.cons]

theorem le_rank_settle {link : Link} {p : α} {g : Grouping α} {n : Nat} (hn : n ≤ link.rank)
    (hg : ∀ r ∈ g.rank?, n ≤ r) : ∀ r ∈ (settle link (.operand p) g).rank?, n ≤ r := by
  cases g with
  | operand q => simpa [settle, rank?] using hn
  | join upper left right =>
      unfold settle
      split
      · simpa [rank?] using hn
      · exact hg

/-- An operator that has sunk to its place leaves an ordered grouping ordered. -/
theorem Ordered.settle {link : Link} {p : α} {g : Grouping α} (hg : g.Ordered) :
    (settle link (.operand p) g).Ordered := by
  induction g with
  | operand q => simp [Grouping.settle, Ordered, rank?]
  | join upper left right ihl _ =>
      obtain ⟨hl, hr, hol, hor⟩ := hg
      unfold Grouping.settle
      split
      · rename_i h
        exact ⟨by simp [rank?], by simpa [rank?] using h, trivial, hl, hr, hol, hor⟩
      · rename_i h
        exact ⟨le_rank_settle (by omega) hl, hr, ihl hol, hor⟩

end Grouping

namespace Chain

/-- The grouping of a chain, operator after operator from the right. -/
def regrouped (c : Chain α) : Grouping α := go c.first c.rest
where
  go (first : α) : List (Link × α) → Grouping α
    | [] => .operand first
    | (link, p) :: rest => .settle link (.operand first) (go p rest)

@[simp] theorem regrouped_single (p : α) : (single p).regrouped = .operand p := rfl

@[simp] theorem regrouped_cons (p : α) (link : Link) (c : Chain α) :
    (c.cons p link).regrouped = .settle link (.operand p) c.regrouped := rfl

theorem chain_regrouped (c : Chain α) : c.regrouped.chain = c := by
  obtain ⟨first, rest⟩ := c
  induction rest generalizing first with
  | nil => rfl
  | cons step rest ih =>
      have h : (cons first step.1 ⟨step.2, rest⟩).regrouped.chain =
          cons first step.1 ⟨step.2, rest⟩ := by
        rw [regrouped_cons, Grouping.chain_settle, ih]
      exact h

theorem ordered_regrouped (c : Chain α) : c.regrouped.Ordered := by
  obtain ⟨first, rest⟩ := c
  induction rest generalizing first with
  | nil => trivial
  | cons step rest ih =>
      have h : (cons first step.1 ⟨step.2, rest⟩).regrouped.Ordered := by
        rw [regrouped_cons]
        exact (ih step.2).settle
      exact h

end Chain

/-! ## 4. From the left -/

namespace Grouping

/-- Precedence climbing: the operators to come are taken from the left, up to the first one that
    binds looser than `least`. The right operand of an operator is climbed in turn and takes only
    what binds tighter, so operators of one rank take their operands from the left. What is left
    over stands in the result. -/
def climb (least : Nat) (left : Grouping α) :
    (links : List (Link × α)) → { r : Grouping α × List (Link × α) // r.2.length ≤ links.length }
  | [] => ⟨(left, []), Nat.le_refl _⟩
  | (link, p) :: rest =>
      if link.rank < least then ⟨(left, (link, p) :: rest), Nat.le_refl _⟩
      else
        let right := climb (link.rank + 1) (.operand p) rest
        let all := climb least (.join link left right.1.1) right.1.2
        ⟨all.1, Nat.le_succ_of_le (Nat.le_trans all.2 right.2)⟩
termination_by links => links.length
decreasing_by
  · exact Nat.lt_succ_self _
  · exact Nat.lt_succ_of_le right.2

/-- What is to come binds no tighter than the outermost operator. -/
def Awaits (g : Grouping α) (links : List (Link × α)) : Prop :=
  ∀ step ∈ links.head?, ∀ r ∈ g.rank?, step.1.rank ≤ r

/-- What climbing makes of an ordered grouping and the operators to come. -/
structure Climbed (least : Nat) (left : Grouping α) (links : List (Link × α))
    (r : Grouping α × List (Link × α)) : Prop where
  /-- Nothing is lost. -/
  chain : r.1.chain.first = left.chain.first ∧
    r.1.chain.rest ++ r.2 = left.chain.rest ++ links
  ordered : r.1.Ordered
  /-- Only operators that bind at least as tight as asked for are taken. -/
  tight : r.1 = left ∨ ∃ n ∈ r.1.rank?, least ≤ n
  /-- What is left over binds looser. -/
  loose : ∀ step ∈ r.2.head?, step.1.rank < least

theorem climbed_climb {least : Nat} {left : Grouping α} {links : List (Link × α)}
    (ho : left.Ordered) (ha : left.Awaits links) :
    Climbed least left links (climb least left links).1 := by
  fun_induction climb least left links with
  | case1 least left => exact ⟨by simp, ho, .inl rfl, by simp⟩
  | case2 least left link p rest h => exact ⟨by simp, ho, .inl rfl, by simpa using h⟩
  | case3 least left link p rest h right all ihright ihall _ =>
      have hright : Climbed (link.rank + 1) (.operand p) rest right.1 :=
        ihright trivial (by simp [Awaits, rank?])
      have hjoin : (join link left right.1.1).Ordered := by
        refine ⟨ha _ rfl, fun r hr => ?_, ho, hright.ordered⟩
        rcases hright.tight with he | ⟨n, hn, hle⟩
        · simp [he, rank?] at hr
        · obtain rfl := Option.mem_unique hr hn
          exact hle
      have hnext : (join link left right.1.1).Awaits right.1.2 := by
        intro step hs r hr
        obtain rfl : r = link.rank := by simpa [rank?] using hr.symm
        exact Nat.le_of_lt_succ (hright.loose step hs)
      have hall : Climbed least (.join link left right.1.1) right.1.2 all.1 := ihall hjoin hnext
      refine ⟨⟨hall.chain.1, ?_⟩, hall.ordered, .inr ?_, hall.loose⟩
      · obtain ⟨hfirst, hrest⟩ := hright.chain
        simp only [chain, Chain.single, List.nil_append] at hfirst hrest
        rw [hall.chain.2]
        simp [chain, Chain.append, hfirst, hrest]
      · rcases hall.tight with he | htight
        · exact ⟨link.rank, by simp [all, he, rank?], by omega⟩
        · exact htight

end Grouping

namespace Chain

/-- The grouping of a chain by precedence climbing. -/
def climbed (c : Chain α) : Grouping α := (Grouping.climb 0 (.operand c.first) c.rest).1.1

theorem climbed_spec (c : Chain α) : c.climbed.chain = c ∧ c.climbed.Ordered := by
  have h : Grouping.Climbed 0 (.operand c.first) c.rest
      (Grouping.climb 0 (.operand c.first) c.rest).1 :=
    Grouping.climbed_climb trivial (by simp [Grouping.Awaits, Grouping.rank?])
  have hover : (Grouping.climb 0 (.operand c.first) c.rest).1.2 = [] := by
    cases hl : (Grouping.climb 0 (.operand c.first) c.rest).1.2 with
    | nil => rfl
    | cons step later => exact absurd (h.loose step (by simp [hl])) (Nat.not_lt_zero _)
  have hrest := h.chain.2
  rw [hover, List.append_nil] at hrest
  exact ⟨Chain.ext h.chain.1 hrest, h.ordered⟩

/-- **Grouping from the right and precedence climbing from the left agree.** -/
theorem regrouped_eq_climbed (c : Chain α) : c.regrouped = c.climbed :=
  c.ordered_regrouped.unique c.climbed_spec.2 (c.chain_regrouped.trans c.climbed_spec.1.symm)

theorem climbed_single (p : α) : (single p).climbed = .operand p := by
  rw [← regrouped_eq_climbed, regrouped_single]

theorem climbed_cons (p : α) (link : Link) (c : Chain α) :
    (c.cons p link).climbed = .settle link (.operand p) c.climbed := by
  rw [← regrouped_eq_climbed, ← regrouped_eq_climbed, regrouped_cons]

end Chain

end Reckoner
