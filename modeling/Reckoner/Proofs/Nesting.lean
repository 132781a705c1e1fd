import Reckoner.Proofs.Faultless
import Reckoner.Session.Command

/-!
# The nesting limit

An expression is given the levels that may still be opened, and the session counts beside it how
many expressions are open. The two never come apart: an expression could as well look at the count
and give up where it has reached the limit.

* `Rule.AgreeAt` -- two rules that do the same wherever so many expressions are open;
  `agreeAt_primary`, `agreeAt_continued` -- the rules of the grammar ask the rule for what is inside
  only there;
* `Rule.counting` -- an expression that looks at the count;
* `Rule.levels_add_depth` -- levels and open expressions add up to the limit wherever an expression
  is begun inside another one;
* `Rule.counting_iff` -- the expressions by levels are the only ones by the count.
-/

namespace Reckoner

namespace Rule

/-! ## 1. Rules in sessions of one depth -/

/-- The two rules do the same wherever so many expressions are open. -/
def AgreeAt {α : Type} (depth : Nat) (rule rule' : Rule α) : Prop :=
  ∀ s, s.depth = depth → rule.runOn s = rule'.runOn s

variable {α β : Type} {depth : Nat}

theorem AgreeAt.refl (rule : Rule α) : AgreeAt depth rule rule := fun _ _ => rfl

/-- The second parts are run in sessions of the same depth when the first part is balanced. -/
theorem AgreeAt.bind {rule rule' : Rule α} {next next' : α → Rule β} (h : AgreeAt depth rule rule')
    (hbalanced : Balanced rule)
    (hnext : ∀ between, AgreeAt depth (next between) (next' between)) :
    AgreeAt depth (rule >>= next) (rule' >>= next') := by
  intro s hs
  have hdepth := hbalanced s
  rw [runOn_bind, runOn_bind, ← h s hs]
  rcases hrun : rule.runOn s with ⟨fault | between, s₁⟩
  · rfl
  · rw [hrun] at hdepth
    exact hnext between s₁ (hdepth.trans hs)

theorem Balanced.agreeAt {rule : Rule α} {next next' : α → Rule β} (h : Balanced rule)
    (hnext : ∀ between, AgreeAt depth (next between) (next' between)) :
    AgreeAt depth (rule >>= next) (rule >>= next') :=
  (AgreeAt.refl rule).bind h hnext

theorem AgreeAt.ite {p : Prop} [Decidable p] {a a' b b' : Rule α} (ha : AgreeAt depth a a')
    (hb : AgreeAt depth b b') :
    AgreeAt depth (if p then a else b) (if p then a' else b') := by
  split
  · exact ha
  · exact hb

/-- What is read inside one more open expression is read one level deeper. -/
theorem AgreeAt.nested {rule rule' : Rule α} (h : AgreeAt (depth + 1) rule rule') :
    AgreeAt depth (Rule.nested rule) (Rule.nested rule') := by
  intro s hs
  rw [runOn_nested, runOn_nested, h s.enter (congrArg (· + 1) hs)]

/-! ## 2. The rules of the grammar -/

section Inner

variable {inner inner' : Rule Node} (h : AgreeAt depth inner inner') (hbalanced : Balanced inner)

include h hbalanced

/-- The items of a list, by the number of items that may still follow. -/
theorem agreeAt_items (bound : Nat) :
    AgreeAt depth (items inner bound) (items inner' bound) := by
  induction bound with
  | zero => exact .refl unclosed
  | succ bound ih =>
      have hmore : ∀ item, AgreeAt depth (do return item :: (← items inner bound))
          (do return item :: (← items inner' bound)) := fun item =>
        ih.bind (balanced_items hbalanced bound) fun _ => .refl _
      refine balanced_atEnd.agreeAt fun _ => .ite (.refl unclosed) ?_
      refine h.bind hbalanced fun item => balanced_skipBlanks.agreeAt fun _ =>
        balanced_peek.agreeAt fun found => ?_
      split
      · exact (balanced_pass 1).agreeAt fun _ => balanced_skipBlanks.agreeAt fun _ => hmore item
      · exact .refl _
      · exact hmore item
      · exact (balanced_report _).agreeAt fun _ => (balanced_pass 1).agreeAt fun _ => hmore item

theorem agreeAt_list : AgreeAt depth (list inner) (list inner') := by
  have hitems : ∀ label, AgreeAt depth
      (do
        pass 1
        skipBlanks
        let children ← items inner (← get).cursor.available.toNat
        close label children)
      (do
        pass 1
        skipBlanks
        let children ← items inner' (← get).cursor.available.toNat
        close label children) := fun label =>
    (balanced_pass 1).agreeAt fun _ => balanced_skipBlanks.agreeAt fun _ =>
      balanced_get.agreeAt fun _ =>
        (agreeAt_items h hbalanced _).bind (balanced_items hbalanced _) fun _ => .refl _
  refine (balanced_openNode _).agreeAt fun label => balanced_peek.agreeAt fun _ => ?_
  exact .ite ((balanced_throw _).agreeAt fun _ => hitems label) (hitems label)

theorem agreeAt_prefixed (dialect : Dialect) (token : Token) :
    AgreeAt depth (prefixed dialect inner token) (prefixed dialect inner' token) := by
  refine (balanced_openNode _).agreeAt fun label => ?_
  split
  · exact .refl _
  · exact (balanced_pass _).agreeAt fun _ => h.bind hbalanced fun _ => .refl _

theorem agreeAt_arguments : AgreeAt depth (arguments inner) (arguments inner') :=
  balanced_peek.agreeAt fun _ => .ite (agreeAt_list h hbalanced) (.refl _)

theorem agreeAt_call (token : Token) : AgreeAt depth (call inner token) (call inner' token) :=
  (balanced_openNode _).agreeAt fun _ => (balanced_pass _).agreeAt fun _ =>
    balanced_skipBlanks.agreeAt fun _ =>
      (agreeAt_arguments h hbalanced).bind (balanced_arguments hbalanced) fun _ => .refl _

theorem agreeAt_infixed (dialect : Dialect) (first : Node) (token : Token) :
    AgreeAt depth (infixed dialect inner first token) (infixed dialect inner' first token) := by
  unfold infixed
  split
  · exact (balanced_pass _).agreeAt fun _ => h.bind hbalanced fun _ => .refl _
  · exact .refl _

theorem agreeAt_primary (dialect : Dialect) :
    AgreeAt depth (primary dialect inner) (primary dialect inner') := by
  refine balanced_skipBlanks.agreeAt fun _ => balanced_get.agreeAt fun _ => ?_
  split
  · exact .refl _
  · rename_i token _
    split
    · exact .refl _
    · exact agreeAt_list h hbalanced
    · exact .refl _
    · exact agreeAt_prefixed h hbalanced dialect token
    · exact agreeAt_call h hbalanced token
    · exact agreeAt_call h hbalanced token
    · exact .refl _
    · exact .refl _

theorem agreeAt_continued (dialect : Dialect) (first : Node) :
    AgreeAt depth (continued dialect inner first) (continued dialect inner' first) := by
  refine balanced_skipBlanks.agreeAt fun _ => balanced_get.agreeAt fun _ => ?_
  split
  · exact .refl _
  · exact agreeAt_infixed h hbalanced dialect first _

end Inner

/-! ## 3. The count of the open expressions -/

/-- An expression that looks at the count of the open ones: it gives up where the count has reached
    the limit. What is inside it is read by the rule it is given. -/
def counting (dialect : Dialect) (limit : Nat) (inner : Rule Node) : Rule Node := do
  modify Session.begin
  if limit ≤ (← get).depth then
    abandon
  else
    nested do
      let first ← primary dialect inner
      continued dialect inner first

theorem runOn_counting (dialect : Dialect) (limit : Nat) (inner : Rule Node) (s : Session) :
    (counting dialect limit inner).runOn s =
      if limit ≤ s.depth then abandon.runOn s.begin
      else (nested do
        let first ← primary dialect inner
        continued dialect inner first).runOn s.begin := by
  unfold counting
  rw [runOn_bind, runOn_modify]
  dsimp only
  rw [runOn_bind, runOn_get]
  exact runOn_ite ..

/-- **Levels and open expressions add up to the limit wherever an expression is begun inside another
    one**, as they do for that one. So it makes no difference what a rule for the ones inside does in
    other sessions, and none whether the levels are asked for or the count. -/
theorem levels_add_depth (dialect : Dialect) {limit levels : Nat} {inner : Rule Node}
    (hinner : ∀ s, s.depth + levels = limit →
      (expression dialect levels).runOn s = inner.runOn s)
    (s : Session) (hs : s.depth + (levels + 1) = limit) :
    (expression dialect (levels + 1)).runOn s = (counting dialect limit inner).runOn s := by
  have hinside : AgreeAt (s.depth + 1) (expression dialect levels) inner := fun t ht =>
    hinner t (by omega)
  have hbalanced := balanced_expression dialect levels
  have hopened := (agreeAt_primary hinside hbalanced dialect).bind
    (balanced_primary hbalanced dialect) (agreeAt_continued hinside hbalanced dialect)
  rw [runOn_counting, if_neg (by omega)]
  exact hopened.nested s.begin rfl

variable {settings : Settings} {rule : Rule Node}

/-- Expressions by the count are those by levels, where the two add up to the limit. -/
theorem expression_eq_of_counting
    (hrule : ∀ s, rule.runOn s =
      (counting settings.dialect settings.limit.levels rule).runOn s)
    (levels : Nat) (s : Session) (hs : s.depth + levels = settings.limit.levels) :
    (expression settings.dialect levels).runOn s = rule.runOn s := by
  induction levels generalizing s with
  | zero =>
      rw [hrule, runOn_counting, if_pos (by omega)]
      rfl
  | succ levels ih =>
      rw [hrule]
      exact levels_add_depth settings.dialect ih s hs

/-- Expressions with the levels that are left look at the count. -/
theorem expressionHere_counting (settings : Settings) (s : Session) :
    (Command.expressionHere settings).runOn s =
      (counting settings.dialect settings.limit.levels
        (Command.expressionHere settings)).runOn s := by
  have hhere : ∀ t, (Command.expressionHere settings).runOn t =
      (expression settings.dialect (settings.limit.levels - t.depth)).runOn t := fun _ => rfl
  rw [hhere]
  cases hleft : settings.limit.levels - s.depth with
  | zero =>
      rw [runOn_counting, if_pos (by omega)]
      rfl
  | succ levels =>
      refine levels_add_depth settings.dialect (fun t ht => ?_) s (by omega)
      have hlevels : settings.limit.levels - t.depth = levels := by omega
      rw [hhere, hlevels]

/-- **Reading by levels is reading by the count.** A rule that gives up where as many expressions are
    open as the limit says, and otherwise opens one and reads those inside by itself, does in every
    session what an expression does with the levels that are left there; and this one is such a
    rule. -/
theorem counting_iff :
    (∀ s, rule.runOn s = (counting settings.dialect settings.limit.levels rule).runOn s) ↔
      ∀ s, rule.runOn s = (Command.expressionHere settings).runOn s := by
  constructor
  · intro hrule s
    by_cases hlimit : s.depth ≤ settings.limit.levels
    · exact (expression_eq_of_counting hrule _ s (Nat.add_sub_cancel' hlimit)).symm
    · have hover : settings.limit.levels ≤ s.depth := by omega
      rw [hrule, expressionHere_counting, runOn_counting, runOn_counting, if_pos hover,
        if_pos hover]
  · intro hrule
    obtain rfl : rule = Command.expressionHere settings := funext hrule
    exact expressionHere_counting settings

end Rule

end Reckoner
