import Reckoner.Calculator
import Reckoner.Proofs.Placeholders
import Reckoner.Proofs.Readable

/-!
# Operands that are left out

Which places of a tree can be empty when its text was read without a report.

* `Node.Lacking` -- the last operand of a node is left out, or the node is nothing at all;
* `Node.Filled` -- what is always there: all operands but the last one, the last item of a list, the
  list of a function; `Phrase.filled` -- which holds throughout the tree of a phrase;
* `Node.Complete` -- nothing but items of lists is empty; `complete_iff` -- what is missing to that;
* `compute_filled` -- so that is what an evaluator can rely on.
-/

namespace Reckoner

namespace Node

/-! ## 1. What is left out and what is there -/

/-- The kinds of operators. -/
def Kind.IsOperator (kind : Kind) : Prop := kind = .prefixOp ∨ kind = .infixOp

/-- The kinds of functions. -/
def Kind.IsFunction (kind : Kind) : Prop := kind = .binaryFunction ∨ kind = .unaryFunction

instance (kind : Kind) : Decidable kind.IsOperator :=
  inferInstanceAs (Decidable (kind = .prefixOp ∨ kind = .infixOp))

theorem isFunction_functionKind (name : Text) : (functionKind name).IsFunction := by
  unfold functionKind
  split
  · exact .inl rfl
  · exact .inr rfl

/-- There is nothing, or an operator whose last operand lacks something in turn. -/
inductive Lacking : Node → Prop where
  | hole {n : Node} (hkind : n.kind = .expression) : Lacking n
  | operand {n last : Node} (hkind : n.kind.IsOperator) (hlast : n.children.getLast? = some last)
      (h : Lacking last) : Lacking n

/-- What is there below a node: all operands of an operator but the last one, the last item of a list
    and the list of a function. Below numbers and empty places there is nothing. -/
def Filled (n : Node) : Prop :=
  match n.kind with
  | .prefixOp | .infixOp => ∀ child ∈ n.children.dropLast, ¬ child.Lacking
  | .paren => ∃ last, n.children.getLast? = some last ∧ ¬ last.Lacking
  | .binaryFunction | .unaryFunction => ∃ list, n.children = [list] ∧ list.kind = .paren
  | .expression | .number => n.children = []

/-- Nothing but items of lists is empty, and each function holds one list. -/
structure Complete (root : Node) : Prop where
  present : root.kind ≠ .expression
  placeholders : ∀ n ∈ root.walk, ∀ child ∈ n.children, child.kind = .expression → n.kind = .paren
  functions : ∀ n ∈ root.walk, n.kind.IsFunction → ∃ list, n.children = [list] ∧ list.kind = .paren

variable {n : Node}

theorem lacking_iff_of_operator (hkind : n.kind.IsOperator) {last : Node}
    (hlast : n.children.getLast? = some last) : n.Lacking ↔ last.Lacking := by
  constructor
  · rintro (hhole | ⟨-, hlast', h⟩)
    · rcases hkind with hk | hk <;> simp [hk] at hhole
    · rw [hlast] at hlast'
      rwa [Option.some.inj hlast']
  · exact .operand hkind hlast

theorem Lacking.kind (h : n.Lacking) : n.kind = .expression ∨ n.kind.IsOperator := by
  cases h with
  | hole hkind => exact .inl hkind
  | operand hkind => exact .inr hkind

theorem filled_iff_of_function (hkind : n.kind.IsFunction) :
    n.Filled ↔ ∃ list, n.children = [list] ∧ list.kind = .paren := by
  unfold Filled
  rcases hkind with hk | hk
  · rw [hk]
  · rw [hk]

theorem not_lacking (kind : Kind) (hn : n.kind = kind)
    (hkind : ¬ (kind = .expression ∨ kind.IsOperator)) : ¬ n.Lacking :=
  fun h => hkind (hn ▸ h.kind)

/-! ## 2. Trees without places -/

@[simp] theorem kind_shape (n : Node) : n.shape.kind = n.kind := by
  cases n
  rw [shape_mk]
  rfl

@[simp] theorem children_shape (n : Node) : n.shape.children = n.children.map shape := by
  cases n
  rw [shape_mk]
  rfl

theorem lacking_shape : n.shape.Lacking ↔ n.Lacking := by
  constructor
  · intro h
    generalize hshape : n.shape = m at h
    induction h generalizing n with
    | hole hkind =>
        subst hshape
        exact .hole (by simpa using hkind)
    | operand hkind hlast _ ih =>
        subst hshape
        rw [children_shape, List.getLast?_map, Option.map_eq_some_iff] at hlast
        obtain ⟨last, hlast, hlast'⟩ := hlast
        exact .operand (by simpa using hkind) hlast (ih hlast')
  · intro h
    induction h with
    | hole hkind => exact .hole (by simpa using hkind)
    | operand hkind hlast _ ih =>
        refine .operand (by simpa using hkind) ?_ ih
        rw [children_shape, List.getLast?_map, hlast, Option.map_some]

theorem filled_of_shape (h : n.shape.Filled) : n.Filled := by
  have hlast : (∃ last, n.shape.children.getLast? = some last ∧ ¬ last.Lacking) →
      ∃ last, n.children.getLast? = some last ∧ ¬ last.Lacking := by
    rintro ⟨_, hlast, hnot⟩
    rw [children_shape, List.getLast?_map, Option.map_eq_some_iff] at hlast
    obtain ⟨last, hlast, rfl⟩ := hlast
    exact ⟨last, hlast, fun h => hnot (lacking_shape.2 h)⟩
  have hlist : (∃ list, n.shape.children = [list] ∧ list.kind = .paren) →
      ∃ list, n.children = [list] ∧ list.kind = .paren := by
    rintro ⟨_, hchildren, hkind⟩
    rw [children_shape, List.map_eq_singleton_iff] at hchildren
    obtain ⟨list, hchildren, rfl⟩ := hchildren
    exact ⟨list, hchildren, kind_shape list ▸ hkind⟩
  have hoperands : (∀ child ∈ n.shape.children.dropLast, ¬ child.Lacking) →
      ∀ child ∈ n.children.dropLast, ¬ child.Lacking := by
    simp only [children_shape, ← List.map_dropLast, List.forall_mem_map, lacking_shape, imp_self]
  unfold Filled at h ⊢
  rw [kind_shape] at h
  cases hkind : n.kind with
  | prefixOp => rw [hkind] at h; exact hoperands h
  | infixOp => rw [hkind] at h; exact hoperands h
  | paren => rw [hkind] at h; exact hlast h
  | binaryFunction => rw [hkind] at h; exact hlist h
  | unaryFunction => rw [hkind] at h; exact hlist h
  | expression => rw [hkind] at h; exact List.map_eq_nil_iff.1 (children_shape n ▸ h)
  | number => rw [hkind] at h; exact List.map_eq_nil_iff.1 (children_shape n ▸ h)

/-- What is told by the shapes of nodes holds throughout a tree if it does throughout its shape. -/
theorem Throughout.of_shape {P : Node → Prop} (hshape : ∀ m : Node, P m.shape → P m)
    (h : n.shape.Throughout P) : n.Throughout P := by
  generalize hm : n.shape = m at h
  induction h generalizing n with
  | node here _ ih =>
      subst hm
      refine .node (hshape n here) fun child hchild => ?_
      exact ih child.shape (by simpa using ⟨child, hchild, rfl⟩) rfl

theorem Throughout.shape {P : Node → Prop} (hshape : ∀ m : Node, P m → P m.shape)
    (h : n.Throughout P) : n.shape.Throughout P := by
  induction h with
  | node here _ ih =>
      refine .node (hshape _ here) ?_
      rw [children_shape]
      exact List.forall_mem_map.2 ih

/-! ## 3. Trees of phrases -/

theorem lacking_binary {link : Link} {first second : Node} :
    (binary link first second).Lacking ↔ second.Lacking :=
  lacking_iff_of_operator (.inr rfl) rfl

theorem lacking_signed {sign : Char} {operand : Node} :
    (signed sign operand).Lacking ↔ operand.Lacking :=
  lacking_iff_of_operator (.inl rfl) rfl

theorem filled_binary {link : Link} {first second : Node} (h : ¬ first.Lacking) :
    (binary link first second).Filled :=
  List.forall_mem_singleton.2 h

theorem filled_signed (sign : Char) (operand : Node) : (signed sign operand).Filled :=
  List.forall_mem_nil _

theorem filled_list {children : List Node}
    (h : ∃ last, children.getLast? = some last ∧ ¬ last.Lacking) : (list children).Filled :=
  h

theorem filled_applied (name : Text) (children : List Node) :
    (applied name (list children)).Filled := by
  have hkind : (applied name (list children)).kind.IsFunction := isFunction_functionKind name
  exact (filled_iff_of_function hkind).2 ⟨_, rfl, rfl⟩

end Node

/-- What settles in the grouping of a phrase stands in front of its last operand. -/
theorem Grouping.lacking_settle {link : Link} {p : Node} {g : Grouping Node} :
    (settle link (.operand p) g).shape.Lacking ↔ g.shape.Lacking := by
  cases g with
  | operand q => exact Node.lacking_binary
  | join upper left right =>
      unfold settle
      split
      · exact Node.lacking_binary
      · exact Node.lacking_binary.trans Node.lacking_binary.symm

/-- An operand that lacks nothing settles in a tree without making a gap. -/
theorem Grouping.filled_settle {link : Link} {p : Node} {g : Grouping Node} (hp : ¬ p.Lacking)
    (hfilled : p.Throughout Node.Filled) (hg : g.shape.Throughout Node.Filled) :
    (settle link (.operand p) g).shape.Throughout Node.Filled := by
  have hbinary : ∀ {link : Link} {a b : Node}, ¬ a.Lacking → a.Throughout Node.Filled →
      b.Throughout Node.Filled → (Node.binary link a b).Throughout Node.Filled :=
    fun h ha hb => .node (Node.filled_binary h) (by simp [Node.binary, ha, hb])
  induction g with
  | operand q => exact hbinary hp hfilled hg
  | join upper left right ihl _ =>
      have hhere : ¬ left.shape.Lacking := hg.self _ List.mem_cons_self
      have hchildren : left.shape.Throughout Node.Filled ∧ right.shape.Throughout Node.Filled := by
        simpa [shape, Node.binary] using hg.children
      unfold settle
      split
      · exact hbinary hp hfilled hg
      · exact hbinary (fun h => hhere (lacking_settle.1 h)) (ihl hchildren.1) hchildren.2

mutual

theorem Operand.not_lacking : ∀ p : Operand, ¬ p.tree.Lacking
  | .number x => Node.not_lacking .number rfl (by decide)
  | .list entries => Node.not_lacking .paren rfl (by decide)
  | .call name entries => by
      rcases Node.isFunction_functionKind name.1 with hkind | hkind
      · exact Node.not_lacking .binaryFunction hkind (by decide)
      · exact Node.not_lacking .unaryFunction hkind (by decide)

/-- **The last operand of a phrase is left out exactly when the phrase says so.** -/
theorem Phrase.lacking_iff {whole : Bool} : ∀ e : Phrase whole, e.tree.Lacking ↔ whole = false
  | .omitted => iff_of_true (.hole rfl) rfl
  | .operand p => iff_of_false p.not_lacking (by simp)
  | .signed sign rest => Node.lacking_signed.trans rest.lacking_iff
  | .linked p link rest => Grouping.lacking_settle.trans rest.lacking_iff

/-- The last item of a list is there. -/
theorem Entries.exists_last : ∀ entries : Entries,
    ∃ last, entries.trees.getLast? = some last ∧ ¬ last.Lacking
  | .last e => ⟨_, rfl, fun h => by simpa using e.lacking_iff.1 h⟩
  | .more e rest => by
      obtain ⟨last, hlast, hnot⟩ := rest.exists_last
      refine ⟨last, ?_, hnot⟩
      rw [Entries.trees, List.getLast?_cons, hlast, Option.getD_some]

end

mutual

theorem Operand.filled : ∀ p : Operand, p.tree.Throughout Node.Filled
  | .number x => .node (n := Node.numeral x.1) rfl (List.forall_mem_nil _)
  | .list entries => .node (Node.filled_list entries.exists_last) entries.filled
  | .call name entries => by
      have hlist : (Node.list entries.trees).Throughout Node.Filled :=
        .node (Node.filled_list entries.exists_last) entries.filled
      exact .node (Node.filled_applied name.1 entries.trees) (List.forall_mem_singleton.2 hlist)

/-- **In the tree of a phrase only last operands and items of lists are left out.** -/
theorem Phrase.filled {whole : Bool} : ∀ e : Phrase whole, e.tree.Throughout Node.Filled
  | .omitted => .node (n := Node.hole) rfl (List.forall_mem_nil _)
  | .operand p => p.filled
  | .signed sign rest =>
      .node (Node.filled_signed sign.1 rest.tree) (List.forall_mem_singleton.2 rest.filled)
  | .linked p _ rest => Grouping.filled_settle p.not_lacking p.filled rest.filled

theorem Entries.filled : ∀ entries : Entries, ∀ t ∈ entries.trees, t.Throughout Node.Filled
  | .last e => List.forall_mem_singleton.2 e.filled
  | .more e rest => List.forall_mem_cons.2 ⟨e.filled, rest.filled⟩

end

/-! ## 4. What is missing to a complete tree -/

namespace Node

variable {n : Node}

/-- Every empty place below the node is an item of a list. -/
def Placed (n : Node) : Prop := ∀ child ∈ n.children, child.kind = .expression → n.kind = .paren

/-- Items of the list lack either everything or nothing. -/
def AllOrNothing (n : Node) : Prop :=
  n.kind = .paren → ∀ item ∈ n.children, item.Lacking → item.kind = .expression

theorem Lacking.kind_eq_of_placed (h : n.Lacking) (hplaced : n.Throughout Placed) :
    n.kind = .expression := by
  induction h with
  | hole hkind => exact hkind
  | @operand n last hkind hlast _ ih =>
      have hmem : last ∈ n.children := List.mem_of_getLast? hlast
      have hparen := hplaced.self last hmem (ih (hplaced.children last hmem))
      rcases hkind with hk | hk <;> simp [hk] at hparen

/-- An operator that lacks nothing lacks none of its operands. -/
theorem Lacking.of_child (hkind : n.kind.IsOperator)
    (hoperands : ∀ child ∈ n.children.dropLast, ¬ child.Lacking) {child : Node}
    (hchild : child ∈ n.children) (h : child.Lacking) : n.Lacking := by
  rcases List.eq_nil_or_concat n.children with hnil | ⟨others, last, hchildren⟩
  · simp [hnil] at hchild
  · rw [List.concat_eq_append] at hchildren
    rw [hchildren, List.dropLast_concat] at hoperands
    rw [hchildren, List.mem_append, List.mem_singleton] at hchild
    rcases hchild with hother | rfl
    · exact absurd h (hoperands child hother)
    · exact .operand hkind (by rw [hchildren, List.getLast?_concat]) h

/-- Below a filled node that lacks either everything or nothing, what lacks something is an item. -/
theorem Filled.child (hfilled : n.Filled) (hn : n.Lacking → n.kind = .expression)
    (hitems : n.AllOrNothing) : ∀ child ∈ n.children, child.Lacking →
      n.kind = .paren ∧ child.kind = .expression := by
  intro child hchild hlacking
  have hoperator : n.kind.IsOperator → ¬ ∀ c ∈ n.children.dropLast, ¬ c.Lacking := by
    intro hkind hoperands
    have hnone := hn (.of_child hkind hoperands hchild hlacking)
    rcases hkind with hk | hk <;> simp [hk] at hnone
  have hfunction : ¬ ∃ list, n.children = [list] ∧ list.kind = .paren := by
    rintro ⟨list, hchildren, hlist⟩
    rw [hchildren, List.mem_singleton] at hchild
    exact not_lacking .paren (hchild ▸ hlist) (by decide) hlacking
  have hleaf : n.children ≠ [] := List.ne_nil_of_mem hchild
  unfold Filled at hfilled
  cases hkind : n.kind with
  | paren => exact ⟨rfl, hitems hkind child hchild hlacking⟩
  | prefixOp => rw [hkind] at hfilled; exact absurd hfilled (hoperator (.inl hkind))
  | infixOp => rw [hkind] at hfilled; exact absurd hfilled (hoperator (.inr hkind))
  | binaryFunction => rw [hkind] at hfilled; exact absurd hfilled hfunction
  | unaryFunction => rw [hkind] at hfilled; exact absurd hfilled hfunction
  | expression => rw [hkind] at hfilled; exact absurd hfilled hleaf
  | number => rw [hkind] at hfilled; exact absurd hfilled hleaf

theorem Throughout.allOrNothing (h : n.Throughout Placed) : n.Throughout AllOrNothing := by
  induction h with
  | node _ below ih =>
      exact .node (fun _ item hitem hlacking => hlacking.kind_eq_of_placed (below item hitem)) ih

/-- Where what lacks only a part is no item, all empty places of a filled tree are items. -/
theorem Throughout.placed (hfilled : n.Throughout Filled) (hn : n.Lacking → n.kind = .expression)
    (hitems : n.Throughout AllOrNothing) : n.Throughout Placed := by
  induction hfilled with
  | @node n hfilled _ ih =>
      have hchild := hfilled.child hn hitems.self
      refine .node (fun child hmem hkind => (hchild child hmem (.hole hkind)).1) ?_
      exact fun child hmem => ih child hmem (fun h => (hchild child hmem h).2)
        (hitems.children child hmem)

/-- **A filled tree is complete exactly when no item of a list lacks only a part of itself.** -/
theorem complete_iff (hfilled : n.Throughout Filled) (hn : ¬ n.Lacking) :
    n.Complete ↔ ∀ m ∈ n.walk, m.AllOrNothing := by
  rw [forall_mem_walk]
  constructor
  · intro hcomplete
    exact Throughout.allOrNothing (forall_mem_walk.1 hcomplete.placeholders)
  · intro hitems
    refine ⟨fun hkind => hn (.hole hkind), ?_, ?_⟩
    · exact forall_mem_walk.2 (hfilled.placed (fun h => absurd h hn) hitems)
    · exact fun m hm hkind => (filled_iff_of_function hkind).1 (forall_mem_walk.2 hfilled m hm)

end Node

/-! ## 5. What is evaluated -/

theorem filled_of_parse {limit : NestingLimit} {source : Text} {p : Parse}
    (hparse : parse ⟨limit, Dialect.standard⟩ source = .ok p) (hsilent : p.hasErrors = false) :
    p.root.Throughout Node.Filled ∧ ¬ p.root.Lacking := by
  obtain ⟨e, -, -, hshape⟩ := exists_phrase_of_parse hparse hsilent
  constructor
  · refine .of_shape (fun _ => Node.filled_of_shape) ?_
    rw [hshape]
    exact e.filled
  · rw [← Node.lacking_shape, hshape, e.lacking_iff]
    simp

theorem beforeComma_of_parse {limit : NestingLimit} {source : Text} {p : Parse}
    (hparse : parse ⟨limit, Dialect.standard⟩ source = .ok p) (hsilent : p.hasErrors = false) :
    p.root.Throughout (Node.BeforeComma source) := by
  obtain ⟨g, s', hreads, hresult⟩ := exists_parse limit source
  obtain rfl := Except.ok.inj (hresult.symm.trans hparse)
  have hreports : s'.finished.reports = [] := by
    simpa [Parse.hasErrors, Parse.reports] using hsilent
  have hquiet : (Session.start source).Quiet s' :=
    ⟨rfl, List.prefix_nil.1 (hreports ▸ Session.reports_finished s')⟩
  refine Grouping.throughout_node (fun n hkind hhole => ?_)
    (hreads.beforeComma (Session.inside_start source) hquiet)
  simp [hkind] at hhole

/-- **What an evaluator is handed.** Every text has a parse. If it has any report the evaluator is not
    called. Otherwise it is handed a tree whose root is there in full, as are the last item of each
    list and all operands but last ones, and whose functions hold one list each. What is left out is
    left out in front of a comma, and the tree is complete exactly when no item of a list lacks only
    a part of itself. -/
theorem compute_filled {α : Type} (limit : NestingLimit) (evaluator : Evaluator α)
    (source : Text) :
    ∃ p, parse ⟨limit, Dialect.standard⟩ source = .ok p ∧
      (p.hasErrors = true → compute ⟨limit, Dialect.standard⟩ evaluator source =
        .ok ⟨none, p, p.reports.map .report⟩) ∧
      (p.hasErrors = false → compute ⟨limit, Dialect.standard⟩ evaluator source =
          .ok (evaluator.evaluate p) ∧
        ¬ p.root.Lacking ∧ (∀ n ∈ p.root.walk, n.Filled) ∧
        (∀ n ∈ p.root.walk, n.BeforeComma source) ∧
        (p.root.Complete ↔ ∀ n ∈ p.root.walk, n.AllOrNothing)) := by
  obtain ⟨g, s', -, hparse⟩ := exists_parse limit source
  generalize (⟨g.node s'.source, s'.finished⟩ : Parse) = p at hparse
  refine ⟨p, hparse, fun herrors => ?_, fun hsilent => ?_⟩
  · rw [compute, hparse]
    exact if_pos herrors
  · obtain ⟨hfilled, hlacking⟩ := filled_of_parse hparse hsilent
    refine ⟨?_, hlacking, Node.forall_mem_walk.2 hfilled,
      Node.forall_mem_walk.2 (beforeComma_of_parse hparse hsilent),
      Node.complete_iff hfilled hlacking⟩
    rw [compute, hparse]
    exact if_neg (by simp [hsilent])

/-- An operand that is left out in front of a comma is not reported: here the evaluator is handed a
    sum without its second operand. -/
theorem compute_incomplete : ∃ p,
    parse Settings.standard "(1+,2)".toList = .ok p ∧ p.hasErrors = false ∧
      compute Settings.standard Evaluator.nodeCount "(1+,2)".toList =
        .ok (Evaluator.nodeCount.evaluate p) ∧
      (∃ sum ∈ p.root.children, sum.kind = .infixOp ∧
        ∃ operand ∈ sum.children, operand.kind = .expression) ∧
      ¬ p.root.Complete := by
  have hkinds : (parse Settings.standard "(1+,2)".toList).toOption.map
      (fun p => (p.hasErrors, p.root.children.map fun n => (n.kind, n.children.map Node.kind))) =
        some (false, [(.infixOp, [.number, .expression]), (.number, [])]) := by decide +kernel
  obtain ⟨g, s', -, hparse⟩ := exists_parse NestingLimit.standard "(1+,2)".toList
  generalize (⟨g.node s'.source, s'.finished⟩ : Parse) = p at hparse
  change parse Settings.standard _ = _ at hparse
  rw [hparse] at hkinds
  simp only [Except.toOption, Option.map_some, Option.some.injEq, Prod.mk.injEq] at hkinds
  obtain ⟨hsilent, hchildren⟩ := hkinds
  obtain ⟨sum, others, hroot, hsum, -⟩ := List.map_eq_cons_iff.1 hchildren
  obtain ⟨hkind, hoperands⟩ := Prod.mk.inj hsum
  obtain ⟨operand, hoperand, hhole⟩ : ∃ operand ∈ sum.children, operand.kind = .expression :=
    List.mem_map.1 (by rw [hoperands]; decide)
  have hmem : sum ∈ p.root.children := by simp [hroot]
  refine ⟨p, hparse, hsilent, ?_, ⟨sum, hmem, hkind, operand, hoperand, hhole⟩, fun hcomplete => ?_⟩
  · rw [compute, hparse]
    exact if_neg (by simp [hsilent])
  · have hplaced := Node.forall_mem_walk.1 hcomplete.placeholders
    have hparen := (hplaced.children sum hmem).self operand hoperand hhole
    simp [hkind] at hparen

end Reckoner
