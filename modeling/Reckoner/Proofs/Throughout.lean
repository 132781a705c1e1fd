import Reckoner.Node.Walk

/-!
# Every node of a tree

What is said of every node that a walk through a tree visits is said of the tree from its root
downwards.

* `Node.walk_mk`, `Node.drain_cons` -- a walk through a tree walks through its children in turn;
* `Node.Throughout` -- a node and all that hangs below it have a property;
* `throughout_iff` -- one level of it;
* `forall_mem_walk` -- which is the same as all nodes of a walk having it;
* `Node.all` -- a test of every node, by which it is decided: `all_iff`.
-/

namespace Reckoner

namespace Node

/-- The nodes on a stack are visited one after the other. -/
theorem drain_append (a b : List Node) : drain (a ++ b) = drain a ++ drain b := by
  fun_induction drain a with
  | case1 => rfl
  | case2 node pending ih =>
      rw [List.cons_append, drain, ← List.append_assoc, ih, List.cons_append]

theorem drain_cons (node : Node) (rest : List Node) :
    drain (node :: rest) = node.walk ++ drain rest :=
  drain_append [node] rest

theorem walk_mk (label : Label) (children : List Node) :
    (mk label children).walk = .mk label children :: drain children := by
  rw [walk, drain, children_mk, List.append_nil]

/-- The node and every node below it have the property. -/
inductive Throughout (P : Node → Prop) : Node → Prop where
  | node {n : Node} (here : P n) (below : ∀ child ∈ n.children, Throughout P child) :
      Throughout P n

variable {P : Node → Prop} {n : Node}

theorem throughout_iff : n.Throughout P ↔ P n ∧ ∀ child ∈ n.children, child.Throughout P := by
  constructor
  · rintro ⟨here, below⟩
    exact ⟨here, below⟩
  · rintro ⟨here, below⟩
    exact .node here below

theorem Throughout.self (h : n.Throughout P) : P n := (throughout_iff.1 h).1

theorem Throughout.children (h : n.Throughout P) : ∀ child ∈ n.children, child.Throughout P :=
  (throughout_iff.1 h).2

/-- A walk visits what is on the stack and all that hangs below it, and nothing else. -/
theorem forall_mem_drain (stack : List Node) :
    (∀ m ∈ drain stack, P m) ↔ ∀ m ∈ stack, m.Throughout P := by
  fun_induction drain stack with
  | case1 => simp
  | case2 node pending ih =>
      rw [List.forall_mem_cons, ih, List.forall_mem_append, List.forall_mem_cons, throughout_iff,
        and_assoc]

/-- **All nodes of a walk have a property exactly when the tree has it from its root downwards.** -/
theorem forall_mem_walk : (∀ m ∈ n.walk, P m) ↔ n.Throughout P := by
  rw [walk, forall_mem_drain, List.forall_mem_singleton]

mutual

/-- Whether the node and every node below it pass a test. -/
def all (test : Node → Bool) : Node → Bool
  | .mk label children => test (.mk label children) && allOf test children

/-- The same for some trees. -/
def allOf (test : Node → Bool) : List Node → Bool
  | [] => true
  | node :: rest => node.all test && allOf test rest

end

mutual

theorem all_iff {test : Node → Bool} (n : Node) : n.all test = true ↔ n.Throughout (test ·) := by
  cases n with
  | mk label children =>
      rw [all, Bool.and_eq_true, throughout_iff, allOf_iff children]
      rfl

theorem allOf_iff {test : Node → Bool} (nodes : List Node) :
    allOf test nodes = true ↔ ∀ n ∈ nodes, n.Throughout (test ·) := by
  cases nodes with
  | nil => simp [allOf]
  | cons node rest =>
      rw [allOf, Bool.and_eq_true, List.forall_mem_cons, all_iff node, allOf_iff rest]

end

end Node

end Reckoner
