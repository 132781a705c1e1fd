import Reckoner.Proofs.Reading

/-!
# Precedence climbing

The grammar reads the right operand of an infix operator as a whole expression and regroups the
tree afterwards. A second grammar, which never regroups, reads the operands and symbols of a chain
one after the other and groups them by precedence climbing.

* `Rule.chain`, `Rule.climbing` -- that grammar; operands are read as before, and the expressions
  inside them by climbing again;
* `expression_eq_climbing` -- the two grammars are the same rule;
* `parse_eq_climbing` -- so every text has the same parse under both, and the tree of every chain
  has the pieces of the chain and is ordered.
-/

namespace Reckoner

/-! ## 1. A grammar that climbs -/

namespace Rule

/-- Groups a chain by precedence climbing. -/
def grouped (rule : Rule (Chain Node)) : Rule Node := do
  let c ← rule
  return c.climbed.node (← get).source

/-- An operand and what follows it: an infix symbol and the chain behind it, or nothing. -/
def linked (rest : Rule (Chain Node)) (first : Node) : Rule (Chain Node) := do
  skipBlanks
  match Link.next? (← get).cursor.remaining with
  | none => return .single first
  | some link =>
      pass link.symbol.length
      return (← rest).cons first link

/-- The operands and symbols of an expression, of which `levels` may still be opened one inside the
    other: each operand stands one level below the one in front of it. -/
def chain : Nat → Rule (Chain Node)
  | 0 => do
      modify Session.begin
      return .single (← abandon)
  | levels + 1 => do
      modify Session.begin
      nested do
        let first ← primary Dialect.standard (grouped (chain levels))
        linked (chain levels) first

/-- An expression grouped by precedence climbing. -/
def climbing (levels : Nat) : Rule Node := grouped (chain levels)

/-! ## 2. Operands -/

/-- Every result of the rule has a property. -/
def Yields {β : Type} (property : β → Prop) (rule : Rule β) : Prop :=
  ∀ s result s', rule.runOn s = (.ok result, s') → property result

theorem runOn_bind_ok {β γ : Type} {rule : Rule β} {next : β → Rule γ} {s s' : Session}
    {result : γ} :
    (rule >>= next).runOn s = (.ok result, s') ↔
      ∃ between s₁, rule.runOn s = (.ok between, s₁) ∧
        (next between).runOn s₁ = (.ok result, s') := by
  rw [runOn_bind]
  rcases rule.runOn s with ⟨fault | between, s₁⟩
  · simp
  · constructor
    · intro h
      exact ⟨between, s₁, rfl, h⟩
    · rintro ⟨between', s₂, he, h⟩
      obtain ⟨rfl, rfl⟩ : between = between' ∧ s₁ = s₂ := by simpa using he
      exact h

theorem Yields.bind {β γ : Type} {property : β → Prop} {property' : γ → Prop} {rule : Rule β}
    {next : β → Rule γ} (h : Yields property rule)
    (hnext : ∀ between, property between → Yields property' (next between)) :
    Yields property' (rule >>= next) := by
  intro s result s' hrun
  obtain ⟨between, s₁, h₁, h₂⟩ := runOn_bind_ok.1 hrun
  exact hnext between (h s between s₁ h₁) s₁ result s' h₂

/-- Only the last part of a sequence decides on its results. -/
theorem Yields.after {β γ : Type} {property : γ → Prop} {rule : Rule β} {next : β → Rule γ}
    (hnext : ∀ between, Yields property (next between)) : Yields property (rule >>= next) := by
  intro s result s' hrun
  obtain ⟨between, s₁, -, h₂⟩ := runOn_bind_ok.1 hrun
  exact hnext between s₁ result s' h₂

theorem yields_pure {β : Type} {property : β → Prop} {result : β} (h : property result) :
    Yields property (pure result) := by
  intro s result' s' hrun
  obtain ⟨rfl, -⟩ : result = result' ∧ s = s' := by simpa using hrun
  exact h

theorem yields_throw {β : Type} {property : β → Prop} (fault : Fault) :
    Yields property (throw fault : Rule β) := by
  intro s result s' hrun
  simp at hrun

theorem yields_openNode (kind : Node.Kind) : Yields (·.kind = kind) (openNode kind) :=
  Yields.after fun _ => yields_pure rfl

theorem yields_close {kind : Node.Kind} {label : Label} (children : List Node)
    (h : label.kind = kind) : Yields (·.kind = kind) (close label children) :=
  Yields.after fun _ => yields_pure h

theorem yields_closeAlong {kind : Node.Kind} {label : Label} (children : List Node) (last : Node)
    (h : label.kind = kind) : Yields (·.kind = kind) (closeAlong label children last) :=
  Yields.after fun _ => yields_pure h

/-- A rule that closes a node of another kind yields no infix node. -/
theorem Yields.ne_infixOp {kind : Node.Kind} {rule : Rule Node} (h : Yields (·.kind = kind) rule)
    (hk : kind ≠ .infixOp) : Yields (·.kind ≠ .infixOp) rule :=
  fun s node s' hrun he => hk ((h s node s' hrun).symm.trans he)

theorem yields_invalid : Yields (·.kind = .expression) invalid := by
  unfold invalid
  refine (yields_openNode _).bind fun label hl => .after fun _ => .after fun _ => ?_
  split
  · exact .after fun _ => yields_close [] hl
  · exact yields_close [] hl

theorem yields_abandon : Yields (·.kind = .expression) abandon := by
  unfold abandon
  refine (yields_openNode _).bind fun label hl => .after fun _ => ?_
  split
  · exact .after fun _ => .after fun _ => .after fun _ => .after fun _ => yields_close [] hl
  · exact .after fun _ => .after fun _ => .after fun _ => yields_close [] hl

theorem yields_placeholder : Yields (·.kind = .expression) placeholder :=
  (yields_openNode _).bind fun _ hl => yields_close [] hl

theorem yields_number (token : Token) : Yields (·.kind = .number) (number token) :=
  (yields_openNode _).bind fun _ hl => .after fun _ => yields_close [] hl

theorem yields_list (inner : Rule Node) : Yields (·.kind = .paren) (list inner) := by
  unfold list
  refine (yields_openNode _).bind fun label hl => .after fun found => ?_
  split
  · exact .after fun _ => .after fun _ => .after fun _ => .after fun _ => .after fun children =>
      yields_close children hl
  · exact .after fun _ => .after fun _ => .after fun _ => .after fun children =>
      yields_close children hl

theorem yields_prefixed (d : Dialect) (inner : Rule Node) (token : Token) :
    Yields (·.kind = .prefixOp) (prefixed d inner token) := by
  unfold prefixed
  refine (yields_openNode _).bind fun label hl => ?_
  split
  · exact yields_throw _
  · exact .after fun _ => .after fun operand => yields_closeAlong _ _ hl

theorem yields_call (inner : Rule Node) (token : Token) :
    Yields (·.kind = functionKind token) (call inner token) :=
  (yields_openNode _).bind fun _ hl => .after fun _ => .after fun _ => .after fun _ =>
    yields_closeAlong _ _ hl

/-- **The operand of a chain is never an infix node.** -/
theorem yields_primary (d : Dialect) (inner : Rule Node) :
    Yields (·.kind ≠ .infixOp) (primary d inner) := by
  unfold primary
  refine .after fun _ => .after fun s => ?_
  split
  · exact yields_invalid.ne_infixOp (by simp)
  · rename_i token _
    split
    · exact (yields_number token).ne_infixOp (by simp)
    · exact (yields_list inner).ne_infixOp (by simp)
    · exact yields_placeholder.ne_infixOp (by simp)
    · exact (yields_prefixed d inner token).ne_infixOp (by simp)
    · exact (yields_call inner token).ne_infixOp (functionKind_ne_infixOp token)
    · exact (yields_call inner token).ne_infixOp (functionKind_ne_infixOp token)
    · exact yields_throw _
    · exact yields_throw _

theorem Yields.nested {β : Type} {property : β → Prop} {rule : Rule β} (h : Yields property rule) :
    Yields property (nested rule) := by
  intro s result s' hrun
  rw [runOn_nested, Prod.mk.injEq] at hrun
  exact h s.enter result (rule.runOn s.enter).2 (Prod.ext hrun.1 rfl)

theorem yields_chain (levels : Nat) :
    Yields (fun c => ∀ p ∈ c.operands, p.kind ≠ .infixOp) (chain levels) := by
  induction levels with
  | zero =>
      refine .after fun _ => (yields_abandon.ne_infixOp (by simp)).bind fun node hn => ?_
      exact yields_pure (by simpa [Chain.single, Chain.operands] using hn)
  | succ levels ih =>
      refine .after fun _ => .nested ((yields_primary _ _).bind fun first hfirst => ?_)
      refine .after fun _ => .after fun s => ?_
      split
      · exact yields_pure (by simpa [Chain.single, Chain.operands] using hfirst)
      · rename_i link _
        refine .after fun _ => ih.bind fun c hc => yields_pure ?_
        simp only [Chain.cons, Chain.operands, List.map_cons, List.forall_mem_cons] at hc ⊢
        exact ⟨hfirst, hc⟩

/-! ## 3. The two grammars -/

theorem Yields.bind_congr {β γ : Type} {property : β → Prop} {rule : Rule β} {f g : β → Rule γ}
    (h : Yields property rule) (hfg : ∀ between, property between → f between = g between) :
    rule >>= f = rule >>= g := by
  funext s
  show (rule >>= f).runOn s = (rule >>= g).runOn s
  rw [runOn_bind, runOn_bind]
  cases hrun : rule.runOn s with
  | mk result s₁ =>
      cases result with
      | error fault => rfl
      | ok between => simp only [hfg between (h s between s₁ hrun)]

theorem grouped_bind {β : Type} (rule : Rule β) (next : β → Rule (Chain Node)) :
    grouped (rule >>= next) = rule >>= fun between => grouped (next between) := by
  simp [grouped]

theorem grouped_single (p : Node) : grouped (pure (.single p)) = pure p := by
  funext s
  show (grouped (pure (.single p))).runOn s = (.ok p, s)
  simp only [grouped, runOn_bind, runOn_pure, runOn_get, Chain.climbed_single]
  rfl

/-- Whether an expression is closed before or after its chain is grouped makes no difference. -/
theorem grouped_nested (rule : Rule (Chain Node)) :
    grouped (nested rule) = nested (grouped rule) := by
  funext s
  show (grouped (nested rule)).runOn s = (nested (grouped rule)).runOn s
  simp only [grouped, runOn_bind, runOn_nested]
  rcases rule.runOn s.enter with ⟨fault | c, s₁⟩ <;> rfl

/-- Regrouping the chain behind an operand is grouping the chain with that operand in front. -/
theorem continued_grouped {rest : Rule (Chain Node)} {first : Node}
    (hrest : Yields (fun c => ∀ p ∈ c.operands, p.kind ≠ .infixOp) rest) :
    continued Dialect.standard (grouped rest) first = grouped (linked rest first) := by
  unfold continued linked
  rw [grouped_bind]
  congr 1
  funext _
  rw [grouped_bind]
  congr 1
  funext s
  rw [Dialect.infixAt_eq]
  cases Link.next? s.cursor.remaining with
  | none => exact (grouped_single first).symm
  | some link =>
      simp only [Option.map_some, infixed, Link.name?_symbol, Link.rank?_symbol, grouped_bind]
      congr 1
      funext _
      unfold grouped
      rw [bind_assoc]
      refine hrest.bind_congr fun c hc => ?_
      have hmax : c.climbed.Maximal := by
        unfold Grouping.Maximal
        rwa [c.climbed_spec.1]
      funext s₁
      show (ofResult ((Node.joined s₁.source link first (c.climbed.node s₁.source)).rotate
        Dialect.standard.rank? s₁.source)).runOn s₁ =
          (.ok ((c.cons first link).climbed.node s₁.source), s₁)
      rw [rotate_joined s₁.source link first hmax, Chain.climbed_cons]
      rfl

/-- **Reading with regrouping and reading with climbing are the same rule**, whatever session they
    start from and whatever fault or report they end with. -/
theorem expression_eq_climbing (levels : Nat) :
    expression Dialect.standard levels = climbing levels := by
  induction levels with
  | zero =>
      show (modify Session.begin >>= fun _ => abandon) =
        grouped (modify Session.begin >>= fun _ => abandon >>= fun node => pure (.single node))
      simp only [grouped_bind, grouped_single, bind_pure]
  | succ levels ih =>
      show (modify Session.begin >>= fun _ => nested
          (primary Dialect.standard (expression Dialect.standard levels) >>=
            continued Dialect.standard (expression Dialect.standard levels))) =
        grouped (modify Session.begin >>= fun _ => nested
          (primary Dialect.standard (grouped (chain levels)) >>= linked (chain levels)))
      rw [ih, grouped_bind]
      congr 1
      funext _
      rw [grouped_nested, grouped_bind]
      congr 2
      funext first
      exact continued_grouped (yields_chain levels)

/-- The whole text, read with climbing. -/
def climbingRoot (levels : Nat) : Rule Node := do
  let node ← climbing levels
  skipBlanks
  if !(← atEnd) then
    report .trailingCharacters
  return node

end Rule

/-- Reads a text with the grammar that climbs. -/
def parseClimbing (limit : NestingLimit) (source : Text) : Except Fault Parse :=
  match (Rule.climbingRoot limit.levels).runOn (Session.start source) with
  | (.ok root, session) => .ok ⟨root, session⟩
  | (.error fault, _) => .error fault

/-! ## 4. Chains of a parse -/

theorem parse_eq_parseClimbing (limit : NestingLimit) (source : Text) :
    parse ⟨limit, Dialect.standard⟩ source = parseClimbing limit source := by
  have hroot : Rule.root Dialect.standard limit.levels = Rule.climbingRoot limit.levels := by
    simp only [Rule.root, Rule.climbingRoot, Rule.expression_eq_climbing]
  unfold parse parseClimbing
  rcases hrun : (Rule.climbingRoot limit.levels).runOn (Session.start source) with
    ⟨fault | root, session⟩
  · simp only [hroot, hrun]
  · simp only [hroot, hrun]

/-- Wherever an expression starts in a text its chain can be read. -/
theorem exists_chain (levels : Nat) {s : Session} (hs : s.Inside) :
    ∃ c s', (Rule.chain levels).runOn s = (.ok c, s') := by
  have hfollows := expression_follows levels
  obtain ⟨g, s', h⟩ := hfollows.total s hs
  have hrun := hfollows.run _ _ _ h hs
  rw [Rule.expression_eq_climbing] at hrun
  obtain ⟨c, s₁, hchain, -⟩ := Rule.runOn_bind_ok.1 hrun
  exact ⟨c, s₁, hchain⟩

/-- **Regrouping from the right groups every chain as precedence climbing from the left does**: all
    texts have the same parse under both grammars. Wherever an expression starts in a text its chain
    can be read, and wherever the operands and symbols of a chain are read, its tree is the climbed
    one, no operand of it is an infix node, its pieces are those of the chain in their order, and
    its operators stand as their ranks say. -/
theorem parse_eq_climbing :
    (∀ (limit : NestingLimit) (source : Text), ∃ p,
      parse ⟨limit, Dialect.standard⟩ source = .ok p ∧ parseClimbing limit source = .ok p) ∧
    (∀ (levels : Nat) (s : Session), s.Inside →
      ∃ c s', (Rule.chain levels).runOn s = (.ok c, s')) ∧
    ∀ (levels : Nat) (s s' : Session) (c : Chain Node),
      (Rule.chain levels).runOn s = (.ok c, s') →
        (Rule.expression Dialect.standard levels).runOn s =
            (.ok (c.climbed.node s'.source), s') ∧
          (∀ p ∈ c.operands, p.kind ≠ .infixOp) ∧
          (c.climbed.node s'.source).sequence = c.sequence ∧
          (c.climbed.node s'.source).Ordered := by
  refine ⟨fun limit source => ?_, fun levels _ => exists_chain levels, fun levels s s' c h => ?_⟩
  · obtain ⟨g, s', -, hparse⟩ := exists_parse limit source
    exact ⟨_, hparse, by rw [← parse_eq_parseClimbing, hparse]⟩
  · have hoperands := Rule.yields_chain levels s c s' h
    obtain ⟨hchain, hordered⟩ := c.climbed_spec
    have hmax : c.climbed.Maximal := by
      unfold Grouping.Maximal
      rwa [hchain]
    refine ⟨?_, hoperands, ?_, Grouping.ordered_node _ hmax hordered⟩
    · rw [Rule.expression_eq_climbing, Rule.climbing, Rule.grouped, Rule.runOn_bind, h]
      rfl
    · rw [Grouping.sequence_node _ hmax, hchain]

/-- A chain of four operands under three ranks. -/
theorem parse_eq_climbing_mixed : ∃ c s',
    (Rule.chain 5).runOn (Session.start "1-2*3+4".toList) = (.ok c, s') ∧
      c.operands.length = 4 ∧
        (Rule.expression Dialect.standard 5).runOn (Session.start "1-2*3+4".toList) =
          (.ok (c.climbed.node s'.source), s') ∧
        (c.climbed.node s'.source).sequence = c.sequence ∧ (c.climbed.node s'.source).Ordered := by
  have hlength : ((Rule.chain 5).runOn (Session.start "1-2*3+4".toList)).1.toOption.map
      (·.operands.length) = some 4 := by decide
  obtain ⟨c, s', hrun⟩ := parse_eq_climbing.2.1 5 _ (Session.inside_start "1-2*3+4".toList)
  obtain ⟨hexpression, -, hsequence, hordered⟩ := parse_eq_climbing.2.2 5 _ s' c hrun
  rw [hrun] at hlength
  exact ⟨c, s', hrun, Option.some.inj hlength, hexpression, hsequence, hordered⟩

end Reckoner
