import Reckoner.Proofs.Cutoff
import Reckoner.Proofs.OperatorOrder
import Reckoner.Proofs.Shape

/-!
# Incomplete operator tables

Symbols may be missing from the tables of a dialect. A rule looks an operator up where it meets it,
so reading ends at the first operator in the text that is missing. Without one nothing is missed:
regrouping asks for no other rank than those that were asked for before.

* `Token.missing` -- whether the tables lack something of an operator; `Token.fault` -- what happens
  then;
* `Rule.Meets` -- a rule meets operators one after the other and ends in the fault of the first that
  is missing, and in its result if none is; `Meets.bind` -- so does a sequence of two such rules;
* `rotate_without` -- regrouping asks for no rank that is missing, where no operator is;
* `Reads.meets` -- reading an expression meets its operators in the order of the text;
* `parse_without` -- what this says of a whole text.
-/

namespace Reckoner

/-! ## 1. Missing operators -/

namespace Token

/-- Whether the tables lack the name of an operator, or the rank of an infix operator. -/
def missing (unnamed unranked : List Text) (token : Token) : Bool :=
  unnamed.contains token.lexeme || token.kind = .infixOp && unranked.contains token.lexeme

/-- The fault of an operator that is missing. -/
def fault (token : Token) : Fault :=
  if token.kind = .infixOp then .unknownOperator token.lexeme token.location
  else .unnamedOperator token.lexeme

end Token

theorem Dialect.name?_without (d : Dialect) (unnamed unranked : List Text) (symbol : Text) :
    (d.without unnamed unranked).name? symbol = if symbol ∈ unnamed then none else d.name? symbol :=
  Operator.lookup_without unnamed symbol d.names

theorem Dialect.rank?_without (d : Dialect) (unnamed unranked : List Text) (symbol : Text) :
    (d.without unnamed unranked).rank? symbol =
      if symbol ∈ unranked then none else d.rank? symbol :=
  Operator.lookup_without unranked symbol d.ranks

/-- Regrouping an infix node asks for no rank that is missing, where no operator is. -/
theorem rotate_without {unnamed unranked : List Text} (source : Text) {link : Link} (first : Node)
    {g : Grouping Node} (hg : g.Maximal) (hlink : link.symbol ∉ unranked)
    (hnone : ((g.node source).operatorTokens source).find?
      (Token.missing unnamed unranked) = none) :
    (Node.joined source link first (g.node source)).rotate
        (Dialect.standard.without unnamed unranked).rank? source =
      .ok ((Grouping.settle link (.operand first) g).node source) := by
  have hrank : ∀ l : Link, l.symbol ∉ unranked →
      (Dialect.standard.without unnamed unranked).rank? l.symbol = some l.rank := fun l hl => by
    rw [Dialect.rank?_without, if_neg hl, l.rank?_symbol]
  refine settle_joined source first hg (hrank link hlink) fun step hstep => hrank step.1 fun h => ?_
  obtain ⟨token, htoken, hkind, hlexeme⟩ := g.exists_operatorToken source step hstep
  exact List.find?_eq_none.1 hnone token htoken (by simp [Token.missing, hkind, hlexeme, h])

/-! ## 2. Rules that meet operators -/

namespace Rule

section Meets

variable {α β : Type} {missing : Token → Bool} {rule : Rule α} {f : α → Rule β}
  {s s₁ s' : Session} {tokens later : List Token} {a : α} {b : β}

/-- From a session inside a text a rule meets operators that stand one behind the other there. It
    ends in the fault of the first one that is missing; if none is, it has a result. -/
structure Meets (missing : Token → Bool) (rule : Rule α) (s : Session) (tokens : List Token)
    (result : α) (s' : Session) : Prop where
  onward : s.Onward s'
  lined : Token.Lined s.source s.location.offset tokens s'.location.offset
  run : tokens.find? missing = none → rule.runOn s = (.ok result, s')
  halt : ∀ token, tokens.find? missing = some token → (rule.runOn s).1 = .error token.fault

theorem fst_runOn_bind {fault : Fault} (h : (rule.runOn s).1 = .error fault) :
    ((rule >>= f).runOn s).1 = .error fault := by
  rw [runOn_bind]
  rcases hrun : rule.runOn s with ⟨result | result, s''⟩
  · rw [hrun] at h
    exact congrArg Except.error (Except.error.inj h)
  · rw [hrun] at h
    cases h

/-- A rule that meets no operator. -/
theorem meets_of_runOn (hs : s.Inside) (honward : s.Onward s') (hrun : rule.runOn s = (.ok a, s')) :
    Meets missing rule s [] a s' :=
  ⟨honward, honward.offset_le hs, fun _ => hrun, fun _ h => by cases h⟩

/-- **A sequence meets the operators of its first part and then those of its second part.** -/
theorem Meets.bind (h : Meets missing rule s tokens a s₁)
    (h' : Meets missing (f a) s₁ later b s') :
    Meets missing (rule >>= f) s (tokens ++ later) b s' := by
  refine ⟨h.onward.trans h'.onward, h.lined.append ?_, fun hnone => ?_, fun token hsome => ?_⟩
  · rw [← h.onward.source]
    exact h'.lined
  · rw [List.find?_append, Option.or_eq_none_iff] at hnone
    rw [runOn_bind, h.run hnone.1]
    exact h'.run hnone.2
  · rw [List.find?_append, Option.or_eq_some_iff] at hsome
    rcases hsome with hfirst | ⟨hnone, hlater⟩
    · exact fst_runOn_bind (h.halt token hfirst)
    · rw [runOn_bind, h.run hnone]
      exact h'.halt token hlater

/-- A step without operators in front of a rule. -/
theorem Meets.after (h' : Meets missing (f a) s₁ later b s') (hs : s.Inside)
    (honward : s.Onward s₁) (hrun : rule.runOn s = (.ok a, s₁)) :
    Meets missing (rule >>= f) s later b s' :=
  (meets_of_runOn hs honward hrun).bind h'

/-- A question in front of a rule. -/
theorem Meets.ask (h' : Meets missing (f a) s later b s') (hs : s.Inside)
    (hrun : rule.runOn s = (.ok a, s)) : Meets missing (rule >>= f) s later b s' :=
  h'.after hs (Session.onward_refl hs) hrun

/-- What is made of the result of a rule, if it has one. -/
theorem Meets.finish (h : Meets missing rule s tokens a s')
    (hrun : tokens.find? missing = none → (f a).runOn s' = (.ok b, s')) :
    Meets missing (rule >>= f) s tokens b s' :=
  ⟨h.onward, h.lined, fun hnone => by rw [runOn_bind, h.run hnone]; exact hrun hnone,
    fun token hsome => fst_runOn_bind (h.halt token hsome)⟩

theorem Meets.nested (h : Meets missing rule s.enter tokens a s') (hs : s.Inside) :
    Meets missing (nested rule) s tokens a s'.leave := by
  have honward := (Session.onward_enter hs).trans h.onward
  refine ⟨honward.trans (Session.onward_leave honward.inside), h.lined, fun hnone => ?_,
    fun token hsome => ?_⟩
  · rw [runOn_nested, h.run hnone]
  · rw [runOn_nested, h.halt token hsome]

/-- A rule that looks an operator up at the cursor and, unless it is missing, goes on with another
    rule behind it and makes something of the result. -/
theorem meets_cons {lookup : Rule β} {token : Token} (hs : s.Inside)
    (hlocation : token.location = s.location) (hlexeme : token.lexeme ≠ [])
    (hrest : token.lexeme <+: s.rest)
    (hhalt : missing token = true → (lookup.runOn s).1 = .error token.fault)
    (hrun : missing token = false →
      lookup.runOn s = (rule >>= f).runOn (s.past token.lexeme.length))
    (h : Meets missing rule (s.past token.lexeme.length) tokens a s')
    (hlast : missing token = false → tokens.find? missing = none →
      (f a).runOn s' = (.ok b, s')) :
    Meets missing lookup s (token :: tokens) b s' := by
  have honward := Session.onward_past_prefix hs hrest
  have hstands : token.Stands s.source := by
    obtain ⟨after, hafter⟩ := hrest
    rw [Token.Stands, hlocation]
    exact ⟨hlexeme, Session.cut_past hs hafter.symm⟩
  have hlined : Token.Lined s.source s.location.offset (token :: tokens) s'.location.offset := by
    rw [Token.Lined, hlocation, ← honward.source]
    exact ⟨Int.le_refl _, hstands, h.lined⟩
  cases hmissing : missing token with
  | true =>
      have hfirst : (token :: tokens).find? missing = some token := List.find?_cons_of_pos hmissing
      refine ⟨honward.trans h.onward, hlined, fun hnone => ?_, fun first hsome => ?_⟩
      · rw [hfirst] at hnone
        cases hnone
      · rw [hfirst] at hsome
        obtain rfl := Option.some.inj hsome
        exact hhalt hmissing
  | false =>
      have hfirst : (token :: tokens).find? missing = tokens.find? missing :=
        List.find?_cons_of_neg (by simp [hmissing])
      have hbehind := h.finish (hlast hmissing)
      refine ⟨honward.trans h.onward, hlined, fun hnone => ?_, fun first hsome => ?_⟩
      · rw [hrun hmissing]
        exact hbehind.run (hfirst.symm.trans hnone)
      · rw [hrun hmissing]
        exact hbehind.halt first (hfirst.symm.trans hsome)

end Meets

/-! ## 3. The parts of an expression -/

/-- A rule does what a relation says up to the first operator that is missing. -/
def FollowsUpTo (missing : Token → Bool) (source : Text) (rule : Rule Node) (inner : Reading) :
    Prop :=
  ∀ {s s' : Session} {g : Grouping Node}, inner s g s' → s.Inside → s.source = source →
    Meets missing rule s ((g.node source).operatorTokens source) (g.node source) s'

section Parts

variable {missing : Token → Bool} {source : Text} {rule : Rule Node} {inner : Reading}
  (hrule : FollowsUpTo missing source rule inner) {s s₁ s' : Session}

include hrule

/-- An item of a list, and what the character behind it asks for. -/
theorem item_meets {g : Grouping Node} {behind : Node → Text → Rule (List Node)}
    {later : List Token} {nodes : List Node} (hitem : inner s g s₁) (hs : s.Inside)
    (hsource : s.source = source) (hrest : s.rest ≠ [])
    (hlater : Meets missing (behind (g.node source) (s₁.pastBlanks.rest.take 1)) s₁.pastBlanks later
      nodes s') :
    Meets missing
      (do
        if (← atEnd) then unclosed
        else
          let item ← rule
          skipBlanks
          behind item (← peek))
      s ((g.node source).operatorTokens source ++ later) nodes s' := by
  have hfirst := hrule hitem hs hsource
  have h₁ := hfirst.onward.inside
  have h₂ := Session.onward_pastBlanks h₁
  refine .ask ?_ hs (runOn_atEnd hs)
  rw [decide_eq_false hrest, if_neg Bool.false_ne_true]
  refine hfirst.bind ?_
  refine .after ?_ h₁ h₂ runOn_skipBlanks
  exact hlater.ask h₂.inside (runOn_peek h₂.inside)

theorem items_meets {nodes : List Node} (h : inner.Items s nodes s') (hs : s.Inside)
    (hsource : s.source = source) (bound : Nat) (hbound : s.rest.length ≤ bound) :
    Meets missing (items rule bound) s (nodes.flatMap (Node.operatorTokens source)) nodes s' := by
  induction h generalizing bound with
  | givenUp hrest habandoned =>
      refine meets_of_runOn hs (Session.onward_refl hs) ?_
      rw [runOn_items_nil rule hs hrest, if_pos habandoned]
  | unclosed hrest habandoned =>
      refine meets_of_runOn hs (Session.onward_note hs _) ?_
      rw [runOn_items_nil rule hs hrest, if_neg (by simp [habandoned])]
  | @comma s s₁ s' g after nodes hrest hitem hnext hitems ih =>
      obtain ⟨bound, rfl⟩ := Session.exists_succ_of_rest hrest hbound
      have h₁ := (hrule hitem hs hsource).onward
      have h₂ := h₁.pastBlanks
      have hne : s₁.pastBlanks.rest ≠ [] := by simp [hnext]
      have h₃ := Session.onward_past_one h₂.inside hne
      have h₄ := Session.onward_pastBlanks h₃.inside
      have hlater := ih h₄.inside (((h₂.trans h₃).trans h₄).source.trans hsource) bound (by
        have := h₂.length_rest_past_lt hne
        have := h₄.length_rest_le
        omega)
      rw [List.flatMap_cons, h₁.source, hsource, items]
      refine item_meets hrule hitem hs hsource hrest ?_
      rw [hnext]
      refine .after ?_ h₂.inside h₃ (runOn_pass_one h₂.inside hne)
      refine .after ?_ h₃.inside h₄ runOn_skipBlanks
      exact hlater.finish fun _ => rfl
  | @closed s s₁ g after hrest hitem hnext =>
      obtain ⟨bound, rfl⟩ := Session.exists_succ_of_rest hrest hbound
      have h₁ := (hrule hitem hs hsource).onward
      have h₂ := h₁.pastBlanks
      have hne : s₁.pastBlanks.rest ≠ [] := by simp [hnext]
      have h₃ := Session.onward_past_one h₂.inside hne
      rw [List.flatMap_cons, h₁.source, hsource, items]
      refine item_meets hrule hitem hs hsource hrest ?_
      rw [hnext]
      refine .after ?_ h₂.inside h₃ (runOn_pass_one h₂.inside hne)
      exact meets_of_runOn h₃.inside (Session.onward_refl h₃.inside) rfl
  | @junk s s₁ s' g c after nodes hrest hitem hnext hcomma hclose hitems ih =>
      obtain ⟨bound, rfl⟩ := Session.exists_succ_of_rest hrest hbound
      have h₁ := (hrule hitem hs hsource).onward
      have h₂ := h₁.pastBlanks
      have hnote := Session.onward_note h₂.inside .invalidInList
      have h₃ := h₂.trans hnote
      have hne : (s₁.pastBlanks.note .invalidInList).rest ≠ [] := by simp [hnext]
      have h₄ := Session.onward_past_one h₃.inside hne
      have hlater := ih h₄.inside ((h₃.trans h₄).source.trans hsource) bound (by
        have := h₃.length_rest_past_lt hne
        omega)
      rw [List.flatMap_cons, h₁.source, hsource, items]
      refine item_meets hrule hitem hs hsource hrest ?_
      rw [hnext]
      split
      · rename_i hfound
        exact absurd (by simpa using hfound) hcomma
      · rename_i hfound
        exact absurd (by simpa using hfound) hclose
      · rename_i hfound
        cases hfound
      · refine .after ?_ h₂.inside hnote (runOn_report _)
        refine .after ?_ h₃.inside h₄ (runOn_pass_one h₃.inside hne)
        exact hlater.finish fun _ => rfl
  | @ended s s₁ s' g nodes hrest hitem hnext hitems ih =>
      obtain ⟨bound, rfl⟩ := Session.exists_succ_of_rest hrest hbound
      have h₁ := (hrule hitem hs hsource).onward
      have h₂ := h₁.pastBlanks
      have hlater := ih h₂.inside (h₂.source.trans hsource) bound (by simp [hnext])
      rw [List.flatMap_cons, h₁.source, hsource, items]
      refine item_meets hrule hitem hs hsource hrest ?_
      rw [hnext]
      exact hlater.finish fun _ => rfl

theorem list_meets {node : Node} (h : inner.Paren s node s') (hs : s.Inside)
    (hsource : s.source = source) :
    Meets missing (list rule) s (node.operatorTokens source) node s' := by
  obtain ⟨hrest, hitems⟩ := h
  have hne : s.rest ≠ [] := by simp [hrest]
  have h₁ := Session.onward_past_one hs hne
  have h₂ := Session.onward_pastBlanks h₁.inside
  have hmeets := items_meets hrule hitems h₂.inside ((h₁.trans h₂).source.trans hsource) _
    (Nat.le_of_eq h₂.inside.available_eq.symm)
  have hfound : s.rest.take 1 = ['('] := by simp [hrest]
  have hnot : ∀ label : Label, label.kind = .paren →
      ∀ children, ¬ (Node.mk label children).IsOperator := fun label hlabel children => by
    simp [Node.IsOperator, Node.kind, hlabel]
  rw [Session.closed, Node.operatorTokens_of_not (hnot _ rfl _)]
  unfold list
  refine .ask ?_ hs (runOn_openNode _)
  refine .ask ?_ hs (runOn_peek hs)
  rw [hfound, if_neg (fun h => h rfl)]
  refine .after ?_ hs h₁ (runOn_pass_one hs hne)
  refine .after ?_ h₁.inside h₂ runOn_skipBlanks
  refine .ask ?_ h₂.inside (runOn_get _)
  exact hmeets.finish fun _ => rfl

theorem arguments_meets {node : Node} (h : inner.Arguments s node s') (hs : s.Inside)
    (hsource : s.source = source) :
    Meets missing (arguments rule) s (node.operatorTokens source) node s' := by
  unfold arguments
  refine .ask ?_ hs (runOn_peek hs)
  cases h with
  | given hparen =>
      have hfound : s.rest.take 1 = ['('] := by
        obtain ⟨hrest, -⟩ := hparen
        simp [hrest]
      rw [if_pos hfound]
      exact list_meets hrule hparen hs hsource
  | missing hrest =>
      rw [List.take_one, if_neg (hrest ∘ Option.toList_eq_singleton_iff.1)]
      exact meets_of_runOn hs (Session.onward_note hs _) rfl

theorem call_meets {kind : Token.Kind} {x : Text} {node : Node}
    (hmatch : kind.match? s.rest = some x)
    (hgiven : inner.Arguments (s.past x.length).pastBlanks node s') (hs : s.Inside)
    (hsource : s.source = source) :
    Meets missing (call rule ⟨kind, x, s.location⟩) s (node.operatorTokens source)
      (s'.closedAlong { s.opened (functionKind ⟨kind, x, s.location⟩) with operator? := some x }
        [node] node) s' := by
  have hprefix := Token.Kind.prefix_of_match? hmatch
  have h₁ := Session.onward_past_prefix hs hprefix
  have h₂ := Session.onward_pastBlanks h₁.inside
  have harguments :=
    arguments_meets hrule hgiven h₂.inside ((h₁.trans h₂).source.trans hsource)
  unfold call
  refine .ask ?_ hs (runOn_openNode _)
  refine .after ?_ hs h₁ (Rule.runOn_pass_prefix hs hprefix)
  refine .after ?_ h₁.inside h₂ runOn_skipBlanks
  exact harguments.finish fun _ => rfl

end Parts

/-! ## 4. Operators that are looked up -/

section Lookup

variable {unnamed unranked : List Text} {source : Text} {rule : Rule Node} {inner : Reading}
  (hrule : FollowsUpTo (Token.missing unnamed unranked) source rule inner) {s s' : Session}

include hrule

theorem prefixed_meets {sign : Char} {after : Text} {g : Grouping Node}
    (hrest : s.rest = sign :: after) (hsign : sign ∈ Token.signs) (hoperand : inner (s.past 1) g s')
    (hs : s.Inside) (hsource : s.source = source) :
    Meets (Token.missing unnamed unranked)
      (prefixed (Dialect.standard.without unnamed unranked) rule ⟨.prefixOp, [sign], s.location⟩) s
      (⟨.prefixOp, [sign], s.location⟩ :: (g.node source).operatorTokens source)
      (s'.closedAlong { s.opened .prefixOp with
        symbol? := some [sign], operator? := some (Token.signName sign) }
        [g.node source] (g.node source)) s' := by
  have hprefix : [sign] <+: s.rest := ⟨after, hrest.symm⟩
  have h₁ := Session.onward_past_one hs (by simp [hrest])
  have hlater := hrule hoperand h₁.inside (h₁.source.trans hsource)
  have hname := Dialect.standard.name?_without unnamed unranked [sign]
  rw [Token.name?_sign hsign] at hname
  refine meets_cons (f := fun operand => closeAlong { s.opened .prefixOp with
      symbol? := some [sign], operator? := some (Token.signName sign) } [operand] operand)
    hs rfl (List.cons_ne_nil _ _) hprefix (fun hmissing => ?_) (fun hthere => ?_) hlater
    fun _ _ => rfl
  · have hunnamed : [sign] ∈ unnamed := by simpa [Token.missing] using hmissing
    rw [if_pos hunnamed] at hname
    simp only [prefixed, runOn_bind, runOn_openNode, hname]
    rfl
  · have hnamed : [sign] ∉ unnamed := by simpa [Token.missing] using hthere
    rw [if_neg hnamed] at hname
    simp only [prefixed, runOn_bind, runOn_openNode, hname, runOn_pass_prefix hs hprefix]

theorem infixed_meets {first : Node} {link : Link} {g : Grouping Node}
    (hsymbol : link.symbol <+: s.rest) (hright : inner (s.past link.symbol.length) g s')
    (hmaximal : g.Maximal) (hs : s.Inside) (hsource : s.source = source) :
    Meets (Token.missing unnamed unranked)
      (infixed (Dialect.standard.without unnamed unranked) rule first
        ⟨.infixOp, link.symbol, s.location⟩) s
      (⟨.infixOp, link.symbol, s.location⟩ :: (g.node source).operatorTokens source)
      ((Grouping.settle link (.operand first) g).node source) s' := by
  have h₁ := Session.onward_past_prefix hs hsymbol
  have hlater := hrule hright h₁.inside (h₁.source.trans hsource)
  have hsource' : s'.source = source := (h₁.trans hlater.onward).source.trans hsource
  have hname := Dialect.standard.name?_without unnamed unranked link.symbol
  have hrank := Dialect.standard.rank?_without unnamed unranked link.symbol
  rw [link.name?_symbol] at hname
  rw [link.rank?_symbol] at hrank
  refine meets_cons (f := fun second => do
      let joined ← closeAlong { Label.plain .infixOp ⟨first.span.start, s.location⟩ with
        symbol? := some link.symbol, operator? := some link.name } [first, second] second
      ofResult (joined.rotate (Dialect.standard.without unnamed unranked).rank? (← get).source))
    hs rfl link.solid.1 hsymbol (fun hmissing => ?_) (fun hthere => ?_) hlater
    fun hthere hnone => ?_
  · have heither : link.symbol ∈ unnamed ∨ link.symbol ∈ unranked := by
      simpa [Token.missing] using hmissing
    unfold infixed
    split
    · rename_i hnamed hranked
      rcases heither with hunnamed | hunranked
      · rw [hname, if_pos hunnamed] at hnamed
        cases hnamed
      · rw [hrank, if_pos hunranked] at hranked
        cases hranked
    · rfl
  · obtain ⟨hnamed, hranked⟩ : link.symbol ∉ unnamed ∧ link.symbol ∉ unranked := by
      simpa [Token.missing] using hthere
    rw [if_neg hnamed] at hname
    rw [if_neg hranked] at hrank
    simp only [infixed, hname, hrank, runOn_bind, runOn_pass_prefix hs hsymbol]
  · obtain ⟨-, hranked⟩ : link.symbol ∉ unnamed ∧ link.symbol ∉ unranked := by
      simpa [Token.missing] using hthere
    have hrotate := rotate_without source first hmaximal hranked hnone
    simp only [runOn_bind, runOn_closeAlong, runOn_get, hsource']
    show (ofResult ((Node.joined s'.source link first _).rotate _ source)).runOn s' = _
    rw [hsource', hrotate]
    rfl

theorem primary_meets {node : Node} (h : inner.Primary s.pastBlanks node s') (hs : s.Inside)
    (hsource : s.source = source) :
    Meets (Token.missing unnamed unranked)
      (primary (Dialect.standard.without unnamed unranked) rule) s (node.operatorTokens source) node
      s' := by
  have h₀ := Session.onward_pastBlanks hs
  have hsource₀ := h₀.source.trans hsource
  unfold primary
  refine .after ?_ hs h₀ runOn_skipBlanks
  refine .ask ?_ h₀.inside (runOn_get _)
  -- no class of tokens is missing
  have hclassify : ∀ (kind : Token.Kind) {x : Text}, kind ∈ Dialect.standardStarts →
      kind.match? s.pastBlanks.rest = some x →
        (Dialect.standard.without unnamed unranked).classify s.pastBlanks.cursor =
          some ⟨kind, x, s.pastBlanks.location⟩ := fun _ _ => Dialect.classify_of_match?
  have hnone : (∀ kind ∈ Dialect.standardStarts, kind.match? s.pastBlanks.rest = none) →
      (Dialect.standard.without unnamed unranked).classify s.pastBlanks.cursor = none :=
    Dialect.classify_eq_none.2
  have hin := h₀.inside
  generalize s.pastBlanks = t at *
  cases h with
  | exhausted hrest =>
      rw [hnone (by rw [hrest]; decide)]
      exact meets_of_runOn hin (Session.onward_note hin _) (runOn_invalid_nil hin hrest)
  | invalid hrest hclass =>
      rw [hnone hclass]
      have hpast := Session.onward_past_one (s := t.note .invalidExpression) hin hrest
      exact meets_of_runOn hin ((Session.onward_note hin _).trans hpast)
        (runOn_invalid_of_ne hin hrest)
  | @number x hmatch =>
      rw [hclassify .number (by decide) hmatch]
      exact meets_of_runOn hin
        (Session.onward_past_prefix hin (Numeral.isNumeral_of_lexeme? hmatch).2)
        (runOn_number hin hmatch)
  | list hparen =>
      have hmatch : Token.Kind.leftParen.match? t.rest = some ['('] := by
        cases hparen with
        | list hrest => simp [hrest, Token.Kind.match?, Token.oneOf]
      rw [hclassify .leftParen (by decide) hmatch]
      exact list_meets hrule hparen hin hsource₀
  | placeholder hrest =>
      have hmatch : Token.Kind.separator.match? s'.rest = some [','] := by
        rw [hrest]
        rfl
      rw [hclassify .separator (by decide) hmatch]
      exact meets_of_runOn hin (Session.onward_refl hin) rfl
  | @prefixed s' sign after g hrest hsign hoperand =>
      have hmatch : Token.Kind.prefixOp.match? t.rest = some [sign] :=
        Token.oneOf_eq_some.2 ⟨sign, after, hrest, hsign, rfl⟩
      have hmeets := prefixed_meets hrule hrest hsign hoperand hin hsource₀
      rw [hclassify .prefixOp (by decide) hmatch, hmeets.onward.source, hsource₀,
        Session.closedAlong, Node.operatorTokens_sign rfl]
      exact hmeets
  | @call s' kind x node hkind hmatch hgiven =>
      have hmeets := call_meets hrule hmatch hgiven hin hsource₀
      have hnot : ∀ label : Label, label.kind = functionKind ⟨kind, x, t.location⟩ →
          ¬ (Node.mk label [node]).IsOperator := by
        rintro label hlabel (hbinary | hsign)
        · exact functionKind_ne_infixOp _ (hlabel.symm.trans hbinary)
        · exact (functionKind_ne _).2 (hlabel.symm.trans hsign)
      rw [Session.closedAlong, Node.operatorTokens_of_not (hnot _ rfl), List.flatMap_singleton]
      cases kind with
      | binaryFunction =>
          rw [hclassify .binaryFunction (by decide) hmatch]
          exact hmeets
      | unaryFunction =>
          rw [hclassify .unaryFunction (by decide) hmatch]
          exact hmeets
      | _ => simp [Token.Kind.isFunction] at hkind

/-- Behind an operand only the operators behind it are met; an infix symbol follows where the
    operand ends. -/
theorem continued_meets (hmaximal : ∀ s g s', inner s g s' → g.Maximal) {first : Node}
    {g : Grouping Node} (h : inner.Tail s.pastBlanks first g s') (hs : s.Inside)
    (hsource : s.source = source)
    (hstop : first.span.stop = s.location ∨ Link.next? s.pastBlanks.rest = none) :
    ∃ tokens, (g.node source).operatorTokens source = first.operatorTokens source ++ tokens ∧
      Meets (Token.missing unnamed unranked)
        (continued (Dialect.standard.without unnamed unranked) rule first) s tokens (g.node source)
        s' := by
  have h₀ := Session.onward_pastBlanks hs
  have hcontinued : ∀ {found : Option Token} {tokens : List Token} {node : Node},
      Dialect.infixAt s.pastBlanks.cursor = found →
      Meets (Token.missing unnamed unranked)
        (found.elim (pure first)
          (infixed (Dialect.standard.without unnamed unranked) rule first))
        s.pastBlanks tokens node s' →
      Meets (Token.missing unnamed unranked)
        (continued (Dialect.standard.without unnamed unranked) rule first) s tokens node s' := by
    intro found tokens node hfound hbehind
    unfold continued
    refine .after ?_ hs h₀ runOn_skipBlanks
    refine .ask ?_ h₀.inside (runOn_get _)
    rw [hfound]
    cases found with
    | none => exact hbehind
    | some token => exact hbehind
  have hfound := Dialect.infixAt_eq s.pastBlanks.cursor
  cases h with
  | stop hnone =>
      have hnone' : Link.next? s.pastBlanks.cursor.remaining = none := hnone
      rw [hnone'] at hfound
      exact ⟨[], (List.append_nil _).symm, hcontinued hfound (meets_of_runOn h₀.inside
        (Session.onward_refl h₀.inside) rfl)⟩
  | @link _ _ link g hnext hright =>
      have hnext' : Link.next? s.pastBlanks.cursor.remaining = some link := hnext
      have hends : first.span.stop = s.location := hstop.resolve_right (by simp [hnext])
      have hlocation : (Cursor.mk source first.span.stop).skipBlanks.location =
          s.pastBlanks.location := by
        rw [hends, ← hsource]
        rfl
      rw [hnext'] at hfound
      refine ⟨_, Grouping.operatorTokens_settle source link first g, ?_⟩
      rw [hlocation]
      exact hcontinued hfound (infixed_meets hrule (Link.symbol_prefix_of_next? hnext) hright
        (hmaximal _ _ _ hright) h₀.inside (h₀.source.trans hsource))

end Lookup

end Rule

/-! ## 5. Expressions and whole texts -/

/-- Behind an expression no infix symbol follows. -/
theorem Reads.noLink {levels : Nat} {s s' : Session} {g : Grouping Node} (h : Reads levels s g s')
    (hs : s.Inside) : Link.next? s'.pastBlanks.rest = none := by
  induction levels generalizing s g s' with
  | zero =>
      obtain ⟨-, rfl⟩ := h
      have hbegin := (Session.onward_begin hs).inside
      have hrest := Session.rest_abandon hbegin
      rw [Session.pastBlanks_eq_self (Session.onward_abandon hbegin).inside hrest, hrest]
      rfl
  | succ levels ih =>
      obtain ⟨first, s₁, s₂, hprimary, htail, rfl⟩ := h
      have h₁ := hprimary.onward (fun _ _ _ => Reads.onward) (Session.onward_entered hs).inside
      have h₂ := h₁.pastBlanks
      show Link.next? s₂.pastBlanks.rest = none
      cases htail with
      | stop hnone =>
          have hrest : s₁.pastBlanks.rest = s₁.rest.behindBlanks :=
            Session.rest_pastBlanks h₁.inside
          rw [Session.rest_pastBlanks h₂.inside, hrest, Text.behindBlanks_behindBlanks, ← hrest]
          exact hnone
      | link hnext hright =>
          have hsymbol := Link.symbol_prefix_of_next? hnext
          exact ih hright (Session.onward_past_prefix h₂.inside hsymbol).inside

/-- An operand ends at the cursor unless it ends with a whole expression. -/
theorem Reading.Primary.stop_or_noLink {levels : Nat} {s s' : Session} {node : Node}
    (h : (Reads levels).Primary s node s') (hs : s.Inside) :
    node.span.stop = s'.location ∨ Link.next? s'.pastBlanks.rest = none := by
  cases h with
  | list hparen => exact .inl hparen.stop
  | prefixed hrest _ hoperand =>
      exact .inr (hoperand.noLink (Session.onward_past_one hs (by simp [hrest])).inside)
  | call _ _ hgiven => exact .inl hgiven.stop
  | _ => exact .inl rfl

/-- **Reading an expression meets its operators in the order of the text**, as far as the tables
    go. -/
theorem Reads.meets (unnamed unranked : List Text) (source : Text) (levels : Nat) :
    Rule.FollowsUpTo (Token.missing unnamed unranked) source
      (Rule.expression (Dialect.standard.without unnamed unranked) levels) (Reads levels) := by
  induction levels with
  | zero =>
      rintro s s' g ⟨rfl, rfl⟩ hs -
      have hbegin := Session.onward_begin hs
      refine .after ?_ hs hbegin (Rule.runOn_modify _ _)
      exact Rule.meets_of_runOn hbegin.inside (Session.onward_abandon hbegin.inside)
        (Rule.runOn_abandon hbegin.inside)
  | succ levels ih =>
      rintro s s' g ⟨first, s₁, s₂, hprimary, htail, rfl⟩ hs hsource
      have hbegin := Session.onward_begin hs
      have hentered := Session.onward_entered hs
      have hfirst := Rule.primary_meets ih (s := s.begin.enter) hprimary hbegin.inside hsource
      obtain ⟨tokens, htokens, hbehind⟩ := Rule.continued_meets ih (fun _ _ _ => Reads.maximal)
        htail hfirst.onward.inside (hfirst.onward.source.trans hsource)
        (hprimary.stop_or_noLink hentered.inside)
      rw [htokens]
      refine .after ?_ hs hbegin (Rule.runOn_modify _ _)
      exact (hfirst.bind hbehind).nested hbegin.inside

namespace Node

/-- The tables lack the name of the operator, or the rank of an infix operator. -/
def Affected (unnamed unranked : List Text) (n : Node) : Prop :=
  n.kind = .infixOp ∧ (n.symbol ∈ unnamed ∨ n.symbol ∈ unranked) ∨
    n.kind = .prefixOp ∧ n.symbol ∈ unnamed

instance (unnamed unranked : List Text) : DecidablePred (Affected unnamed unranked) :=
  fun _ => inferInstanceAs (Decidable (_ ∨ _))

/-- The fault of an affected node. -/
def fault (source : Text) (n : Node) : Fault :=
  if n.kind = .infixOp then .unknownOperator n.symbol (n.symbolLocation source)
  else .unnamedOperator n.symbol

variable {unnamed unranked : List Text} {n : Node}

theorem Affected.isOperator (h : n.Affected unnamed unranked) : n.IsOperator :=
  h.imp And.left And.left

theorem missing_operatorToken (source : Text) (h : n.IsOperator) :
    (n.operatorToken source).missing unnamed unranked = true ↔ n.Affected unnamed unranked := by
  rcases h with hkind | hkind
  · simp [Token.missing, operatorToken, Affected, hkind]
  · simp [Token.missing, operatorToken, Affected, hkind]

theorem fault_operatorToken (source : Text) (n : Node) :
    (n.operatorToken source).fault = n.fault source := by
  unfold Token.fault fault operatorToken
  split <;> simp_all

/-- No operator is missing exactly where no node is affected. -/
theorem find?_missing_eq_none {source : Text} {root : Node} :
    (root.operatorTokens source).find? (Token.missing unnamed unranked) = none ↔
      ∀ n ∈ root.walk, ¬ n.Affected unnamed unranked := by
  rw [operatorTokens, List.find?_eq_none, List.forall_mem_map]
  constructor
  · intro hnone n hn haffected
    have hoperator := haffected.isOperator
    exact hnone n ((mem_operators root).2 ⟨hn, hoperator⟩)
      ((missing_operatorToken source hoperator).2 haffected)
  · intro hnone n hn hmissing
    obtain ⟨hwalk, hoperator⟩ := (mem_operators root).1 hn
    exact hnone n hwalk ((missing_operatorToken source hoperator).1 hmissing)

end Node

/-- A text whose first expression ends in a fault has no tree. -/
theorem parse_of_fault {settings : Settings} {source : Text} {fault : Fault}
    (hrun : ((Rule.expression settings.dialect settings.limit.levels).runOn
      (Session.start source)).1 = .error fault) : parse settings source = .error fault := by
  have hroot : ((Rule.root settings.dialect settings.limit.levels).runOn
      (Session.start source)).1 = .error fault := by
    unfold Rule.root
    exact Rule.fst_runOn_bind hrun
  unfold parse
  split
  · rename_i root session hresult
    rw [hresult] at hroot
    cases hroot
  · rename_i other session hresult
    rw [hresult] at hroot
    exact congrArg Except.error (Except.error.inj hroot)

/-- **Reading with incomplete tables.** Without an affected node in the tree of a text the tree and
    the session are the same. Otherwise reading ends in the fault of one affected node, and its
    symbol comes before those of all the others. The symbols of all operators stand in the text
    where their nodes say. -/
theorem parse_without (limit : NestingLimit) (unnamed unranked : List Text) (source : Text) :
    ∃ p, parse ⟨limit, Dialect.standard⟩ source = .ok p ∧
      (∀ n ∈ p.root.walk, n.IsOperator → (n.operatorToken source).Stands source) ∧
      ((∀ n ∈ p.root.walk, ¬ n.Affected unnamed unranked) →
        parse ⟨limit, Dialect.standard.without unnamed unranked⟩ source = .ok p) ∧
      ((∃ n ∈ p.root.walk, n.Affected unnamed unranked) →
        ∃ n ∈ p.root.walk, n.Affected unnamed unranked ∧
          (∀ m ∈ p.root.walk, m.Affected unnamed unranked → m = n ∨
            (n.symbolLocation source).offset < (m.symbolLocation source).offset) ∧
          parse ⟨limit, Dialect.standard.without unnamed unranked⟩ source =
            .error (n.fault source)) := by
  obtain ⟨g, s', hreads, hparse⟩ := exists_parse limit source
  have hmeets := Reads.meets unnamed unranked source limit.levels hreads
    (Session.inside_start source) rfl
  rw [show s'.source = source from hmeets.onward.source] at hparse
  have hmem : ∀ {n : Node}, n ∈ (g.node source).operators ↔
      n ∈ (g.node source).walk ∧ n.IsOperator := Node.mem_operators _
  refine ⟨_, hparse, fun n hn hoperator => ?_, fun hnone => ?_, fun ⟨n, hn, haffected⟩ => ?_⟩
  · exact (hmeets.lined.mem (List.mem_map_of_mem (hmem.2 ⟨hn, hoperator⟩))).2
  · exact parse_of_runOn hmeets.onward.inside (hmeets.run (Node.find?_missing_eq_none.2 hnone))
  · cases hfirst : ((g.node source).operatorTokens source).find?
        (Token.missing unnamed unranked) with
    | none => exact absurd haffected (Node.find?_missing_eq_none.1 hfirst n hn)
    | some token =>
        obtain ⟨first, hoperators, rfl, hothers⟩ := Node.exists_first_operator hmeets.lined hfirst
        obtain ⟨hwalk, hoperator⟩ := hmem.1 hoperators
        refine ⟨first, hwalk, ?_, fun m hm haffected' => ?_, ?_⟩
        · exact (Node.missing_operatorToken source hoperator).1 (List.find?_some hfirst)
        · have hoperator' := haffected'.isOperator
          exact hothers m (hmem.2 ⟨hm, hoperator'⟩)
            ((Node.missing_operatorToken source hoperator').2 haffected')
        · rw [← first.fault_operatorToken source]
          exact parse_of_fault (hmeets.halt _ hfirst)

/-- The product stands below the difference in the tree and in front of it in the text. -/
theorem parse_without_product : ∃ p, parse Settings.standard "1 *2-3".toList = .ok p ∧
    p.root.symbol = "-".toList ∧ ∃ n ∈ p.root.walk, n.symbol = "*".toList ∧
      parse ⟨NestingLimit.standard, Dialect.standard.without [] ["*".toList, "-".toList]⟩
        "1 *2-3".toList = .error (n.fault "1 *2-3".toList) := by
  obtain ⟨p, hparse, -, -, hfault⟩ :=
    parse_without NestingLimit.standard [] ["*".toList, "-".toList] "1 *2-3".toList
  change parse Settings.standard _ = _ at hparse
  have hrun : ((parse Settings.standard "1 *2-3".toList).toOption.map fun p =>
      (p.root.symbol, (p.root.walk.filter (·.Affected [] ["*".toList, "-".toList])).map fun n =>
        (n.symbol, (n.symbolLocation "1 *2-3".toList).offset))) =
      some ("-".toList, [("-".toList, 4), ("*".toList, 2)]) := by decide +kernel
  rw [hparse] at hrun
  obtain ⟨hroot, hall⟩ := Prod.mk.inj (Option.some.inj hrun)
  obtain ⟨m, hm, hproduct⟩ := List.mem_map.1 (hall ▸ List.mem_cons_of_mem _ List.mem_cons_self :
    ("*".toList, (2 : Int)) ∈ (p.root.walk.filter _).map _)
  obtain ⟨hsymbol, hoffset⟩ := Prod.mk.inj hproduct
  obtain ⟨hwalk, haffected⟩ := List.mem_filter.1 hm
  obtain ⟨n, hn, hnaffected, hfirst, hresult⟩ := hfault ⟨m, hwalk, of_decide_eq_true haffected⟩
  refine ⟨p, hparse, hroot, n, hn, ?_, hresult⟩
  rcases hfirst m hwalk (of_decide_eq_true haffected) with rfl | hless
  · exact hsymbol
  · have hmem : (n.symbol, (n.symbolLocation "1 *2-3".toList).offset) ∈
        [("-".toList, 4), ("*".toList, 2)] := by
      rw [← hall]
      exact List.mem_map.2 ⟨n, List.mem_filter.2 ⟨hn, decide_eq_true hnaffected⟩, rfl⟩
    simp only [List.mem_cons, Prod.mk.injEq, List.not_mem_nil, or_false] at hmem
    omega

end Reckoner
