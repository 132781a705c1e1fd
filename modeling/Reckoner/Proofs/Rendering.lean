import Reckoner.Proofs.Readable

/-!
# Rendered trees are read back

Trees that can be written without changing what they say, and their way through text and back.

* `Form` -- trees of numbers, signs, lists, functions and infix symbols; an item of a list may be
  left out, but not the last one;
* `Form.Canonical` -- the infix symbols stand as their ranks say, and no sign swallows a symbol that
  should stand above it;
* `Form.tokens`, `Form.node` -- a form as tokens, and its shape as a tree;
* `Form.exists_phrase` -- a canonical form is written like a phrase with the same tree;
* `parse_rendering` -- so a canonical form is read back from any text that spells it.
-/

namespace Reckoner

/-! ## 1. Forms -/

mutual

/-- A tree to be written. -/
inductive Form where
  | number (x : Numeral.Literal)
  | signed (sign : Token.Sign) (operand : Form)
  | list (items : Forms)
  | applied (name : Keyword.Name) (items : Forms)
  | infixed (link : Link) (left right : Form)

/-- The items of a list. Those in front of the last one may be left out. -/
inductive Forms where
  | last (item : Form)
  | more (item : Form) (rest : Forms)
  | skip (rest : Forms)

end

namespace Form

/-- The rank of the outermost infix symbol. -/
def rank? : Form → Option Nat
  | .infixed link _ _ => some link.rank
  | _ => none

/-- The last operand of the chain is a sign with its operand. -/
def EndsSigned : Form → Prop
  | .signed _ _ => True
  | .infixed _ _ right => right.EndsSigned
  | _ => False

end Form

mutual

/-- At every infix symbol the one to the left binds at least as tight, the one to the right binds
    tighter, and the chain to the left does not end in a sign with its operand: it would go on. -/
def Form.Canonical : Form → Prop
  | .number _ => True
  | .signed _ operand => operand.Canonical
  | .list items => items.Canonical
  | .applied _ items => items.Canonical
  | .infixed link left right =>
      (∀ n ∈ left.rank?, link.rank ≤ n) ∧ (∀ n ∈ right.rank?, link.rank < n) ∧
        ¬ left.EndsSigned ∧ left.Canonical ∧ right.Canonical

/-- The same for the items of a list. -/
def Forms.Canonical : Forms → Prop
  | .last item => item.Canonical
  | .more item rest => item.Canonical ∧ rest.Canonical
  | .skip rest => rest.Canonical

end

mutual

/-- How a form is written. -/
def Form.tokens : Form → List Text
  | .number x => [x.1]
  | .signed sign operand => [sign.1] :: operand.tokens
  | .list items => ['('] :: items.tokens
  | .applied name items => name.1 :: ['('] :: items.tokens
  | .infixed link left right => left.tokens ++ link.symbol :: right.tokens

/-- The same for the items of a list, the closing parenthesis included. -/
def Forms.tokens : Forms → List Text
  | .last item => item.tokens ++ [[')']]
  | .more item rest => item.tokens ++ [','] :: rest.tokens
  | .skip rest => [','] :: rest.tokens

end

mutual

/-- The shape of a form: kinds, symbols, names and numbers, and the children in order. -/
def Form.node : Form → Node
  | .number x => .numeral x.1
  | .signed sign operand => .signed sign.1 operand.node
  | .list items => .list items.nodes
  | .applied name items => .applied name.1 (.list items.nodes)
  | .infixed link left right => .binary link left.node right.node

/-- The same for the items of a list; an empty node stands for an item left out. -/
def Forms.nodes : Forms → List Node
  | .last item => [item.node]
  | .more item rest => item.node :: rest.nodes
  | .skip rest => .hole :: rest.nodes

end

/-! ## 2. The chain of a form -/

namespace Form

/-- The infix symbols of a form down to the operands. -/
def grouping : Form → Grouping Node
  | .infixed link left right => .join link left.grouping right.grouping
  | .number x => .operand (Form.number x).node
  | .signed sign operand => .operand (Form.signed sign operand).node
  | .list items => .operand (Form.list items).node
  | .applied name items => .operand (Form.applied name items).node

theorem shape_grouping : ∀ t : Form, t.grouping.shape = t.node
  | .infixed link left right => by
      rw [grouping, Grouping.shape, shape_grouping left, shape_grouping right, node]
  | .number _ => rfl
  | .signed _ _ => rfl
  | .list _ => rfl
  | .applied _ _ => rfl

theorem rank?_grouping (t : Form) : t.grouping.rank? = t.rank? := by
  cases t <;> rfl

/-- The grouping of a canonical form is ordered. -/
theorem Canonical.ordered : ∀ {t : Form}, t.Canonical → t.grouping.Ordered
  | .infixed link left right, h => by
      obtain ⟨hl, hr, -, hleft, hright⟩ := h
      rw [← rank?_grouping] at hl hr
      exact ⟨hl, hr, hleft.ordered, hright.ordered⟩
  | .number _, _ => trivial
  | .signed _ _, _ => trivial
  | .list _, _ => trivial
  | .applied _ _, _ => trivial

end Form

theorem Chain.append_append {α : Type} (a b c : Chain α) (link link' : Link) :
    (a.append link b).append link' c = a.append link (b.append link' c) := by
  simp [append]

/-! ## 3. Forms as phrases -/

/-- A phrase is written like a form, and its tree has the same operands and symbols. -/
def Form.Writes (t : Form) (e : Phrase true) : Prop :=
  e.tokens = t.tokens ∧ e.grouping.chain = t.grouping.chain

/-- Behind a form a chain can go on: the form and what follows are a phrase again. -/
def Form.GoesOn (t : Form) : Prop :=
  ∀ (whole : Bool) (link : Link) (rest : Phrase whole), ∃ e : Phrase whole,
    e.tokens = t.tokens ++ link.symbol :: rest.tokens ∧
      e.grouping.chain = t.grouping.chain.append link rest.grouping.chain

/-- A chain has one ordered grouping, so the trees are the same too. -/
theorem Form.Writes.tree {t : Form} {e : Phrase true} (h : t.Writes e) (ht : t.Canonical) :
    e.tree = t.node := by
  rw [Phrase.tree, e.ordered.unique ht.ordered h.2, t.shape_grouping]

/-- What is no chain is written as an operand. -/
theorem Form.writes_operand {t : Form} {p : Operand} (htokens : p.tokens = t.tokens)
    (htree : Grouping.operand p.tree = t.grouping) :
    t.Writes (.operand p) ∧ t.GoesOn := by
  refine ⟨⟨htokens, by rw [← htree]; rfl⟩, fun whole link rest => ⟨.linked p link rest, ?_, ?_⟩⟩
  · rw [Phrase.tokens, htokens]
  · rw [Phrase.grouping, Grouping.chain_settle, ← htree]
    rfl

mutual

/-- **A canonical form is written like a phrase**, and a chain can go on behind it unless it ends in
    a sign with its operand. -/
theorem Form.exists_phrase : ∀ {t : Form}, t.Canonical →
    (∃ e, t.Writes e) ∧ (¬ t.EndsSigned → t.GoesOn)
  | .number x, _ => by
      obtain ⟨hwrites, hon⟩ := Form.writes_operand (t := .number x) (p := .number x) rfl rfl
      exact ⟨⟨_, hwrites⟩, fun _ => hon⟩
  | .signed sign operand, h => by
      obtain ⟨⟨e, he⟩, -⟩ := Form.exists_phrase (t := operand) h
      have htree : e.grouping.shape = operand.node := he.tree h
      refine ⟨⟨.signed sign e, ?_, ?_⟩, fun hsigned => absurd trivial hsigned⟩
      · rw [Phrase.tokens, he.1, Form.tokens]
      · rw [Phrase.grouping, htree]
        rfl
  | .list items, h => by
      obtain ⟨entries, htokens, htrees⟩ := Forms.exists_entries items h
      obtain ⟨hwrites, hon⟩ := Form.writes_operand (t := .list items) (p := .list entries)
        (by rw [Operand.tokens, htokens, Form.tokens]) (by rw [Operand.tree, htrees]; rfl)
      exact ⟨⟨_, hwrites⟩, fun _ => hon⟩
  | .applied name items, h => by
      obtain ⟨entries, htokens, htrees⟩ := Forms.exists_entries items h
      obtain ⟨hwrites, hon⟩ := Form.writes_operand (t := .applied name items)
        (p := .call name entries) (by rw [Operand.tokens, htokens, Form.tokens])
        (by rw [Operand.tree, htrees]; rfl)
      exact ⟨⟨_, hwrites⟩, fun _ => hon⟩
  | .infixed link left right, h => by
      obtain ⟨-, -, hsigned, hleft, hright⟩ := h
      obtain ⟨-, hlefton⟩ := Form.exists_phrase hleft
      obtain ⟨⟨e, htokens, hchain⟩, hrighton⟩ := Form.exists_phrase hright
      constructor
      · obtain ⟨e', htokens', hchain'⟩ := hlefton hsigned true link e
        refine ⟨e', ?_, ?_⟩
        · rw [htokens', htokens, Form.tokens]
        · rw [hchain', hchain]
          rfl
      · -- what goes on behind the right form is the right operand of a longer chain
        intro hend whole link' rest
        obtain ⟨e₁, htokens₁, hchain₁⟩ := hrighton hend whole link' rest
        obtain ⟨e₂, htokens₂, hchain₂⟩ := hlefton hsigned whole link e₁
        refine ⟨e₂, ?_, ?_⟩
        · rw [htokens₂, htokens₁, Form.tokens, List.append_assoc, List.cons_append]
        · rw [hchain₂, hchain₁, ← Chain.append_append]
          rfl

theorem Forms.exists_entries : ∀ (items : Forms), items.Canonical →
    ∃ entries : Entries, entries.tokens = items.tokens ∧ entries.trees = items.nodes
  | .last item, h => by
      obtain ⟨⟨e, he⟩, -⟩ := Form.exists_phrase (t := item) h
      have htree : e.grouping.shape = item.node := he.tree h
      refine ⟨.last e, ?_, ?_⟩
      · rw [Entries.tokens, he.1, Forms.tokens]
      · rw [Entries.trees, htree, Forms.nodes]
  | .more item rest, h => by
      obtain ⟨⟨e, he⟩, -⟩ := Form.exists_phrase h.1
      obtain ⟨entries, htokens, htrees⟩ := Forms.exists_entries rest h.2
      have htree : e.grouping.shape = item.node := he.tree h.1
      refine ⟨.more e entries, ?_, ?_⟩
      · rw [Entries.tokens, he.1, htokens, Forms.tokens]
      · rw [Entries.trees, htree, htrees, Forms.nodes]
  | .skip rest, h => by
      obtain ⟨entries, htokens, htrees⟩ := Forms.exists_entries rest h
      refine ⟨.more .omitted entries, ?_, ?_⟩
      · rw [Entries.tokens, htokens, Forms.tokens]
        rfl
      · rw [Entries.trees, htrees, Forms.nodes]
        rfl

end

/-! ## 4. Reading back -/

theorem Spaced.length_flatten_le {tokens : List Text} {t : Text} (h : Spaced tokens t) :
    tokens.flatten.length ≤ t.length := by
  induction tokens generalizing t with
  | nil => exact Nat.zero_le _
  | cons x tokens ih =>
      obtain ⟨blank, next, -, rfl, hnext⟩ := h
      have hle := ih hnext
      simp only [List.flatten_cons, List.length_append]
      omega

/-- **A canonical form is read back from every text that spells it**, whatever blanks stand between
    its tokens and at both ends, if more levels may be opened than the text has characters. -/
theorem parse_rendering {t : Form} (ht : t.Canonical) {source : Text}
    (hspaced : Spaced t.tokens source) {limit : NestingLimit}
    (hlimit : source.length < limit.levels) :
    ∃ p, parse ⟨limit, Dialect.standard⟩ source = .ok p ∧ p.hasErrors = false ∧
      p.root.shape = t.node := by
  obtain ⟨⟨e, he⟩, -⟩ := Form.exists_phrase ht
  have hspaced' : Spaced e.tokens source := he.1 ▸ hspaced
  have hlevels : e.levels ≤ limit.levels := by
    have := e.levels_le
    have := hspaced'.length_flatten_le
    omega
  obtain ⟨p, hparse, hsilent, hshape⟩ := exists_parse_of_phrase e hspaced' hlevels
  exact ⟨p, hparse, hsilent, hshape.trans (he.tree ht)⟩

/-- The second symbol binds tighter than the first one, and a sign stands last. -/
theorem parse_rendering_sample : ∃ p,
    parse ⟨NestingLimit.standard, Dialect.standard⟩ " 1 - 2*-3\n".toList = .ok p ∧
      p.hasErrors = false ∧
      p.root.shape = .binary ⟨"-".toList, by decide⟩ (.numeral "1".toList)
        (.binary ⟨"*".toList, by decide⟩ (.numeral "2".toList)
          (.signed '-' (.numeral "3".toList))) := by
  have hnumeral : ∀ x : Text, Numeral.lexeme? x = some x → Numeral.IsNumeral x :=
    fun _ h => (Numeral.isNumeral_of_lexeme? h).1
  refine @parse_rendering
    (.infixed ⟨"-".toList, by decide⟩ (.number ⟨"1".toList, hnumeral _ (by decide)⟩)
      (.infixed ⟨"*".toList, by decide⟩ (.number ⟨"2".toList, hnumeral _ (by decide)⟩)
        (.signed ⟨'-', by decide⟩ (.number ⟨"3".toList, hnumeral _ (by decide)⟩))))
    ?_ _ ?_ .standard ?_
  · refine ⟨by simp [Form.rank?], ?_, not_false, trivial, ?_⟩
    · intro n hn
      obtain rfl := Option.some.inj hn
      decide
    · exact ⟨by simp [Form.rank?], by simp [Form.rank?], not_false, trivial, trivial⟩
  · have hend : Text.Blank "\n".toList := by decide
    exact ⟨" ".toList, " - 2*-3\n".toList, by decide, rfl, " ".toList, " 2*-3\n".toList, by decide,
      rfl, " ".toList, "*-3\n".toList, by decide, rfl, [], "-3\n".toList, by decide, rfl, [],
      "3\n".toList, by decide, rfl, [], "\n".toList, by decide, rfl, hend⟩
  · decide

end Reckoner
