import Reckoner.Proofs.Readable

/-!
# Trees written out again

A tree is written out from its kinds, symbols, names and numbers alone, in the order of its
children. Blanks are not kept in a tree, so none are written.

* `Node.unparse` -- a tree as a text;
* `Phrase.unparse_tree` -- the tree of a phrase is written as the tokens of the phrase, however its
  symbols have settled;
* `unparse_parse` -- the tree of a text without reports is written as that text without its blanks.
-/

namespace Reckoner

/-! ## 1. Writing a tree out -/

/-- A node as a text, given the texts of its children. -/
def Label.unparse (label : Label) (parts : List Text) : Text :=
  match label.kind with
  | .expression => []
  | .number => label.text
  | .paren => ['('] ++ List.intercalate [','] parts ++ [')']
  | .prefixOp => label.symbol?.getD [] ++ parts.flatten
  | .infixOp => List.intercalate (label.symbol?.getD []) parts
  | .binaryFunction => label.operator?.getD [] ++ parts.flatten
  | .unaryFunction => label.operator?.getD [] ++ parts.flatten

namespace Node

mutual

/-- A tree as a text. -/
def unparse : Node → Text
  | .mk label children => label.unparse (unparseAll children)

/-- Some trees as texts. -/
def unparseAll : List Node → List Text
  | [] => []
  | node :: rest => node.unparse :: unparseAll rest

end

/-! ## 2. Only the shape is written -/

theorem unparse_label_shape (label : Label) (parts : List Text) :
    label.shape.unparse parts = label.unparse parts := by
  cases hk : label.kind <;> simp [Label.unparse, Label.shape, hk]

mutual

theorem unparse_shape : ∀ node : Node, node.shape.unparse = node.unparse
  | .mk label children => by
      rw [shape, unparse, unparse, unparse_label_shape, unparseAll_shapes]

theorem unparseAll_shapes : ∀ nodes : List Node, unparseAll (shapes nodes) = unparseAll nodes
  | [] => rfl
  | node :: rest => by rw [shapes, unparseAll, unparseAll, unparse_shape, unparseAll_shapes]

end

@[simp] theorem unparse_numeral (x : Text) : (numeral x).unparse = x := rfl

@[simp] theorem unparse_list (children : List Node) : (list children).unparse =
    ['('] ++ List.intercalate [','] (unparseAll children) ++ [')'] := rfl

@[simp] theorem unparse_signed (sign : Char) (operand : Node) :
    (signed sign operand).unparse = [sign] ++ operand.unparse := by
  simp [signed, unparse, unparseAll, Label.unparse, Label.bare, Label.plain]

@[simp] theorem unparse_applied (name : Text) (given : Node) :
    (applied name given).unparse = name ++ given.unparse := by
  unfold applied functionKind
  split <;> simp [unparse, unparseAll, Label.unparse, Label.bare, Label.plain]

@[simp] theorem unparse_binary (link : Link) (first second : Node) :
    (binary link first second).unparse = first.unparse ++ (link.symbol ++ second.unparse) := by
  simp [binary, unparse, unparseAll, Label.unparse, Label.bare, Label.plain, List.intercalate]

end Node

/-- A symbol that settles in a grouping is written in front of it, wherever it settles. -/
theorem Grouping.unparse_settle (link : Link) (p : Node) (g : Grouping Node) :
    (settle link (.operand p) g).shape.unparse =
      p.unparse ++ (link.symbol ++ g.shape.unparse) := by
  induction g with
  | operand q => exact Node.unparse_binary link p q
  | join upper left right ihl _ =>
      unfold settle
      split
      · exact Node.unparse_binary link p (.binary upper left.shape right.shape)
      · rw [shape, Node.unparse_binary, ihl, shape, Node.unparse_binary]
        simp only [List.append_assoc]

/-! ## 3. Phrases -/

mutual

theorem Operand.unparse_tree : ∀ p : Operand, p.tree.unparse = p.tokens.flatten
  | .number x => by simp [Operand.tree, Operand.tokens]
  | .list entries => by
      rw [Operand.tree, Operand.tokens, Node.unparse_list, List.append_assoc,
        entries.unparse_trees, List.flatten_cons]
  | .call name entries => by
      rw [Operand.tree, Operand.tokens, Node.unparse_applied, Node.unparse_list, List.append_assoc,
        entries.unparse_trees, List.flatten_cons, List.flatten_cons]

/-- **The tree of a phrase is written as the tokens of the phrase.** -/
theorem Phrase.unparse_tree {whole : Bool} :
    ∀ e : Phrase whole, e.tree.unparse = e.tokens.flatten
  | .omitted => rfl
  | .operand p => p.unparse_tree
  | .signed sign rest => by
      have h := rest.unparse_tree
      rw [Phrase.tree] at h
      rw [Phrase.tree, Phrase.grouping, Grouping.shape, Node.unparse_signed, h, Phrase.tokens,
        List.flatten_cons]
  | .linked p link rest => by
      have h := rest.unparse_tree
      rw [Phrase.tree] at h
      rw [Phrase.tree, Phrase.grouping, Grouping.unparse_settle, p.unparse_tree, h, Phrase.tokens,
        List.flatten_append, List.flatten_cons]

theorem Entries.unparse_trees : ∀ entries : Entries,
    List.intercalate [','] (Node.unparseAll entries.trees) ++ [')'] = entries.tokens.flatten
  | .last e => by
      have h := e.unparse_tree
      rw [Phrase.tree] at h
      simp [Entries.trees, Entries.tokens, Node.unparseAll, h, List.intercalate]
  | .more e rest => by
      have h := e.unparse_tree
      rw [Phrase.tree] at h
      have hrest := rest.unparse_trees
      have hcons : ∃ node others, rest.trees = node :: others := by
        cases rest <;> exact ⟨_, _, rfl⟩
      obtain ⟨node, others, htrees⟩ := hcons
      rw [Entries.trees, Entries.tokens, Node.unparseAll, h, List.flatten_append,
        List.flatten_cons, ← hrest, htrees, Node.unparseAll]
      simp [List.intercalate]

end

/-! ## 4. Texts -/

/-- **The tree of a text without reports is written as that text without its blanks**: no token is
    lost, doubled or moved, whatever was regrouped. -/
theorem unparse_parse (limit : NestingLimit) (source : Text) {p : Parse}
    (hparse : parse ⟨limit, Dialect.standard⟩ source = .ok p) (hsilent : p.hasErrors = false) :
    p.root.unparse = source.filter fun c => !Cursor.isBlank c := by
  obtain ⟨e, hspaced, -, hshape⟩ := exists_phrase_of_parse hparse hsilent
  have hspells := (spaced_iff_spells e.solid).1 hspaced
  rw [hspells.filter_eq e.solid, ← Node.unparse_shape, hshape, e.unparse_tree]

/-- A text with a regrouped chain, a function, a missing item and blanks. -/
theorem unparse_parse_sample : ∃ p,
    parse ⟨NestingLimit.standard, Dialect.standard⟩ " 1 -2*max(, -3 ) +4\n".toList = .ok p ∧
      p.hasErrors = false ∧ p.root.unparse = "1-2*max(,-3)+4".toList := by
  have hsilent : ((parse ⟨NestingLimit.standard, Dialect.standard⟩
      " 1 -2*max(, -3 ) +4\n".toList).toOption.map Parse.hasErrors) = some false := by
    decide +kernel
  cases hparse : parse ⟨NestingLimit.standard, Dialect.standard⟩
      " 1 -2*max(, -3 ) +4\n".toList with
  | error fault => rw [hparse] at hsilent; cases hsilent
  | ok p =>
      rw [hparse] at hsilent
      have hnone : p.hasErrors = false := Option.some.inj hsilent
      refine ⟨p, rfl, hnone, ?_⟩
      rw [unparse_parse NestingLimit.standard _ hparse hnone]
      decide

end Reckoner
