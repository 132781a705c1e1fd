import Reckoner.Proofs.Spans

/-!
# Reading never faults

A fault ends a rule and every rule around it, so a text that has been read was read without one.

* `Rule.Balanced` -- a rule closes the expressions it opens, also when it ends in a fault;
  `balanced_expression`, `balanced_root` -- so do the rules of the grammar, in every dialect;
* `parse_faultless` -- with the standard dialect no rule faults, wherever in a text it starts.
-/

namespace Reckoner

namespace Rule

/-! ## 1. Opening and closing -/

/-- As many expressions are open behind the rule as in front of it, whether it gives a result or
    ends in a fault. -/
def Balanced {β : Type} (rule : Rule β) : Prop :=
  ∀ s, (rule.runOn s).2.depth = s.depth

theorem Balanced.bind {β γ : Type} {rule : Rule β} {next : β → Rule γ} (h : Balanced rule)
    (hnext : ∀ between, Balanced (next between)) : Balanced (rule >>= next) := by
  intro s
  have hfirst := h s
  rw [runOn_bind]
  rcases hrun : rule.runOn s with ⟨fault | between, s₁⟩
  · rwa [hrun] at hfirst
  · rw [hrun] at hfirst
    exact (hnext between s₁).trans hfirst

theorem Balanced.ite {β : Type} {p : Prop} [Decidable p] {a b : Rule β} (ha : Balanced a)
    (hb : Balanced b) : Balanced (if p then a else b) := by
  split
  · exact ha
  · exact hb

theorem balanced_pure {β : Type} (result : β) : Balanced (pure result) := fun _ => rfl

theorem balanced_throw {β : Type} (fault : Fault) : Balanced (throw fault : Rule β) := fun _ => rfl

theorem balanced_get : Balanced (get : Rule Session) := fun _ => rfl

theorem balanced_modify (f : Session → Session) (h : ∀ s, (f s).depth = s.depth) :
    Balanced (modify f : Rule Unit) := h

theorem balanced_ofResult {β : Type} (result : Except Fault β) : Balanced (ofResult result) := by
  cases result with
  | ok result => exact balanced_pure result
  | error fault => exact balanced_throw fault

theorem balanced_pass (count : Int) : Balanced (pass count) := by
  intro s
  rw [runOn_pass]
  split <;> rfl

theorem balanced_skipBlanks : Balanced skipBlanks := balanced_modify _ fun _ => rfl

theorem balanced_report (problem : Problem) : Balanced (report problem) :=
  balanced_modify _ fun _ => rfl

theorem balanced_peek : Balanced peek := balanced_get.bind fun _ => balanced_pure _

theorem balanced_atEnd : Balanced atEnd := balanced_get.bind fun _ => balanced_pure _

theorem balanced_openNode (kind : Node.Kind) : Balanced (openNode kind) :=
  balanced_get.bind fun _ => balanced_pure _

theorem balanced_close (label : Label) (children : List Node) : Balanced (close label children) :=
  balanced_get.bind fun _ => balanced_pure _

theorem balanced_closeAlong (label : Label) (children : List Node) (last : Node) :
    Balanced (closeAlong label children last) :=
  balanced_get.bind fun _ => balanced_pure _

/-- The expression that is opened around a rule is closed again. -/
theorem Balanced.nested {β : Type} {rule : Rule β} (h : Balanced rule) :
    Balanced (Rule.nested rule) := by
  intro s
  have hdepth : (rule.runOn s.enter).2.depth = s.depth + 1 := h s.enter
  simp [Session.leave, hdepth]

/-! ## 2. The rules of the grammar -/

theorem balanced_invalid : Balanced invalid := by
  refine (balanced_openNode _).bind fun label => (balanced_report _).bind fun _ => ?_
  refine balanced_atEnd.bind fun _ => ?_
  exact .ite ((balanced_pass _).bind fun _ => balanced_close _ _) (balanced_close _ _)

theorem balanced_abandon : Balanced abandon := by
  have hrest : ∀ label, Balanced (do
      modify Session.giveUp
      pass (← get).cursor.remaining.length
      close label []) := fun label =>
    (balanced_modify Session.giveUp fun _ => rfl).bind fun _ => balanced_get.bind fun _ =>
      (balanced_pass _).bind fun _ => balanced_close label []
  refine (balanced_openNode _).bind fun label => balanced_get.bind fun _ => ?_
  exact .ite ((balanced_report _).bind fun _ => hrest label) (hrest label)

theorem balanced_placeholder : Balanced placeholder :=
  (balanced_openNode _).bind fun label => balanced_close label []

theorem balanced_number (token : Token) : Balanced (number token) :=
  (balanced_openNode _).bind fun _ => (balanced_pass _).bind fun _ => balanced_close _ _

theorem balanced_unclosed : Balanced unclosed :=
  balanced_get.bind fun _ => .ite ((balanced_report _).bind fun _ => balanced_pure _)
    (balanced_pure _)

section Inner

variable {inner : Rule Node} (h : Balanced inner)

include h

/-- The items of a list, by the number of items that may still follow. -/
theorem balanced_items (bound : Nat) : Balanced (items inner bound) := by
  induction bound with
  | zero => exact balanced_unclosed
  | succ bound ih =>
      have hmore : ∀ item, Balanced (do return item :: (← items inner bound)) := fun item =>
        ih.bind fun _ => balanced_pure _
      refine balanced_atEnd.bind fun _ => .ite balanced_unclosed ?_
      refine h.bind fun item => balanced_skipBlanks.bind fun _ => balanced_peek.bind fun found => ?_
      split
      · exact (balanced_pass 1).bind fun _ => balanced_skipBlanks.bind fun _ => hmore item
      · exact (balanced_pass 1).bind fun _ => balanced_pure [item]
      · exact hmore item
      · exact (balanced_report _).bind fun _ => (balanced_pass 1).bind fun _ => hmore item

theorem balanced_list : Balanced (list inner) := by
  have hitems : ∀ label, Balanced (do
      pass 1
      skipBlanks
      let children ← items inner (← get).cursor.available.toNat
      close label children) := fun label =>
    (balanced_pass 1).bind fun _ => balanced_skipBlanks.bind fun _ => balanced_get.bind fun _ =>
      (balanced_items h _).bind fun children => balanced_close label children
  refine (balanced_openNode _).bind fun label => balanced_peek.bind fun _ => ?_
  exact .ite ((balanced_throw _).bind fun _ => hitems label) (hitems label)

theorem balanced_prefixed (dialect : Dialect) (token : Token) :
    Balanced (prefixed dialect inner token) := by
  refine (balanced_openNode _).bind fun label => ?_
  split
  · exact balanced_throw _
  · exact (balanced_pass _).bind fun _ => h.bind fun _ => balanced_closeAlong _ _ _

theorem balanced_arguments : Balanced (arguments inner) :=
  balanced_peek.bind fun _ =>
    .ite (balanced_list h) ((balanced_report _).bind fun _ => balanced_placeholder)

theorem balanced_call (token : Token) : Balanced (call inner token) :=
  (balanced_openNode _).bind fun _ => (balanced_pass _).bind fun _ =>
    balanced_skipBlanks.bind fun _ => (balanced_arguments h).bind fun _ => balanced_closeAlong _ _ _

theorem balanced_infixed (dialect : Dialect) (first : Node) (token : Token) :
    Balanced (infixed dialect inner first token) := by
  unfold infixed
  split
  · exact (balanced_pass _).bind fun _ => h.bind fun _ => (balanced_closeAlong _ _ _).bind fun _ =>
      balanced_get.bind fun _ => balanced_ofResult _
  · exact balanced_throw _

theorem balanced_primary (dialect : Dialect) : Balanced (primary dialect inner) := by
  refine balanced_skipBlanks.bind fun _ => balanced_get.bind fun _ => ?_
  split
  · exact balanced_invalid
  · rename_i token _
    split
    · exact balanced_number token
    · exact balanced_list h
    · exact balanced_placeholder
    · exact balanced_prefixed h dialect token
    · exact balanced_call h token
    · exact balanced_call h token
    · exact balanced_throw _
    · exact balanced_throw _

theorem balanced_continued (dialect : Dialect) (first : Node) :
    Balanced (continued dialect inner first) := by
  refine balanced_skipBlanks.bind fun _ => balanced_get.bind fun _ => ?_
  split
  · exact balanced_pure first
  · exact balanced_infixed h dialect first _

end Inner

/-- **An expression closes all that it opens**, in every dialect and also when it ends in a
    fault. -/
theorem balanced_expression (dialect : Dialect) (levels : Nat) :
    Balanced (expression dialect levels) := by
  induction levels with
  | zero => exact (balanced_modify Session.begin fun _ => rfl).bind fun _ => balanced_abandon
  | succ levels ih =>
      refine (balanced_modify Session.begin fun _ => rfl).bind fun _ => Balanced.nested ?_
      exact (balanced_primary ih dialect).bind fun first => balanced_continued ih dialect first

theorem balanced_root (dialect : Dialect) (levels : Nat) : Balanced (root dialect levels) := by
  refine (balanced_expression dialect levels).bind fun node => balanced_skipBlanks.bind fun _ => ?_
  exact balanced_atEnd.bind fun _ =>
    .ite ((balanced_report _).bind fun _ => balanced_pure node) (balanced_pure node)

end Rule

/-- Behind a text that has been read no expression is open. -/
theorem depth_of_parse {settings : Settings} {source : Text} {p : Parse}
    (h : parse settings source = .ok p) : p.session.depth = 0 := by
  have hbalanced := Rule.balanced_root settings.dialect settings.limit.levels (Session.start source)
  unfold parse at h
  split at h
  · rename_i hrun
    rw [hrun] at hbalanced
    cases h
    exact hbalanced
  · cases h

/-! ## 3. Reading without faults -/

/-- The tree of whatever is read has two operands at each infix node. -/
theorem Reads.operands {levels : Nat} {s s' : Session} {g : Grouping Node}
    (h : Reads levels s g s') (hs : s.Inside) :
    ∀ n ∈ (g.node s'.source).walk, n.kind = .infixOp →
      ∃ first second, n.children = [first, second] := by
  rw [(h.onward hs).source]
  intro n hn hkind
  have hexact : n.Exact s.source := Node.forall_mem_walk.2 (h.covers hs).spans.exact n hn
  obtain ⟨first, second, hchildren, -⟩ := hexact.binary hkind
  exact ⟨first, second, hchildren⟩

/-- **Reading never faults.** Every text has a parse under every nesting limit; behind it no
    expression is open, and the cursor is inside the text. More than that, an expression can be read
    wherever in a text it starts, whatever was reported, opened or given up before: it leaves as many
    expressions open as it found and the cursor inside the text, each infix node of its tree has two
    operands, and an infix node over its tree, whatever stands to the left, can be regrouped. As a
    fault would end the rules around it too, none of the rules that are called on the way faults:
    none passes more characters than are left, reads a list where none starts, meets a token that no
    rule reads, or a symbol that has no name or no rank. -/
theorem parse_faultless :
    (∀ (limit : NestingLimit) (source : Text), ∃ p,
      parse ⟨limit, Dialect.standard⟩ source = .ok p ∧ p.session.source = source ∧
        p.session.depth = 0 ∧ 0 ≤ p.session.location.offset ∧
        p.session.location.offset ≤ source.length) ∧
    (∀ (levels : Nat) (s : Session), s.Inside → ∃ node s',
      (Rule.expression Dialect.standard levels).runOn s = (.ok node, s') ∧
        s'.source = s.source ∧ s'.Inside ∧ s'.depth = s.depth ∧
        (∀ n ∈ node.walk, n.kind = .infixOp → ∃ first second, n.children = [first, second]) ∧
        ∀ (link : Link) (first : Node), ∃ rotated,
          (Node.joined s'.source link first node).rotate Dialect.standard.rank? s'.source =
            .ok rotated) := by
  constructor
  · intro limit source
    obtain ⟨g, s', hreads, hparse⟩ := exists_parse limit source
    have honward := (hreads.onward (Session.inside_start source)).finished
    have hsource : s'.finished.source = source := honward.source
    exact ⟨_, hparse, hsource, depth_of_parse hparse, honward.inside.1,
      hsource ▸ honward.inside.2⟩
  · intro levels s hs
    -- a way to read on exists from every place, and the rule takes it without a fault
    have hfollows := expression_follows levels
    obtain ⟨g, s', hreads⟩ := hfollows.total s hs
    have hrun := hfollows.run _ _ _ hreads hs
    have honward := hreads.onward hs
    have hdepth : s'.depth = s.depth := by
      simpa [hrun] using Rule.balanced_expression Dialect.standard levels s
    exact ⟨_, s', hrun, honward.source, honward.inside, hdepth, hreads.operands hs,
      fun link first => ⟨_, rotate_joined s'.source link first hreads.maximal⟩⟩

/-- Two levels in the middle of a text, where an expression is open and something was reported. -/
theorem parse_faultless_sample : ∃ node s',
    (Rule.expression Dialect.standard 2).runOn
        ((((Session.start "1+(2*3^".toList).past 3).note .invalidInList).enter) = (.ok node, s') ∧
      s'.Inside ∧ s'.depth = 1 ∧ node.kind = .infixOp := by
  have hkind : ((Rule.expression Dialect.standard 2).runOn
      ((((Session.start "1+(2*3^".toList).past 3).note .invalidInList).enter)).1.toOption.map
        (·.kind) = some .infixOp := by decide +kernel
  obtain ⟨node, s', hrun, -, hinside, hdepth, -, -⟩ :=
    parse_faultless.2 2 ((((Session.start "1+(2*3^".toList).past 3).note .invalidInList).enter)
      ⟨by decide, by decide⟩
  rw [hrun] at hkind
  exact ⟨node, s', hrun, hinside, hdepth, Option.some.inj hkind⟩

end Reckoner
