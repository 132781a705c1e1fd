import Mathlib.Logic.Function.Iterate
import Reckoner.Proofs.Throughout

/-!
# The order of a walk

A walk has one stack for all the nodes that are still to be visited, the siblings of the node at
hand and those of every node above it. Still it visits the nodes as a recursion over the tree does.

* `Node.preorder` -- the nodes of a tree by recursion; `drain_eq_flatMap` -- the same as a walk with
  any stack;
* `Node.sites`, `Node.nodeAt?` -- every node with its place, a path of child numbers, and the node
  at a place; `mem_sites` -- each place of the tree is there;
* `sites_sorted`, `exists_sites_below` -- places come in lexicographic order, so each one once and
  parents first, and those below one node stand together;
* `Node.Walker` -- the loop of a walk, turn by turn, with the top of its stack at the end;
  `iterate_turn` -- each turn visits the next node;
* `walk_preorder` -- what this says of the walk through a tree.
-/

namespace Reckoner

namespace Node

/-! ## 1. Walking by recursion -/

mutual

/-- The nodes of a tree by recursion: the node, then those of each child, from first to last. -/
def preorder : Node → List Node
  | .mk label children => .mk label children :: preorderAll children

/-- The same for some trees, one after the other. -/
def preorderAll : List Node → List Node
  | [] => []
  | node :: rest => preorder node ++ preorderAll rest

end

theorem preorderAll_eq_flatMap (nodes : List Node) : preorderAll nodes = nodes.flatMap preorder := by
  induction nodes with
  | nil => rfl
  | cons node rest ih => rw [preorderAll, ih, List.flatMap_cons]

theorem preorder_eq (n : Node) : n.preorder = n :: n.children.flatMap preorder := by
  obtain ⟨label, children⟩ := n
  rw [preorder, preorderAll_eq_flatMap, children_mk]

/-- **With any stack a walk visits the trees on it one after the other, each by recursion.** -/
theorem drain_eq_flatMap (stack : List Node) : drain stack = stack.flatMap preorder := by
  fun_induction drain stack with
  | case1 => rfl
  | case2 node pending ih =>
      rw [ih, List.flatMap_append, List.flatMap_cons, preorder_eq node, List.cons_append]

theorem walk_eq_preorder (root : Node) : root.walk = root.preorder := by
  rw [walk, drain_eq_flatMap, List.flatMap_singleton]

/-! ## 2. Places -/

/-- The node at a place, which is a path of child numbers from the root down. -/
def nodeAt? (n : Node) : List Nat → Option Node
  | [] => some n
  | i :: path => n.children[i]?.bind fun child => child.nodeAt? path

/-- A place as seen from a place above it, and the node there. -/
def under (path : List Nat) (site : List Nat × Node) : List Nat × Node :=
  (path ++ site.1, site.2)

mutual

/-- Every node with its place, by recursion. -/
def sites : Node → List (List Nat × Node)
  | .mk label children => ([], .mk label children) :: sitesFrom 0 children

/-- The same for the children of a node, from a number on. -/
def sitesFrom (i : Nat) : List Node → List (List Nat × Node)
  | [] => []
  | node :: rest => (sites node).map (under [i]) ++ sitesFrom (i + 1) rest

end

mutual

/-- The nodes come in the order of the recursion. -/
theorem map_snd_sites : ∀ n : Node, n.sites.map Prod.snd = n.preorder
  | .mk label children => by
      rw [sites, List.map_cons, map_snd_sitesFrom 0 children, preorder]

theorem map_snd_sitesFrom (i : Nat) :
    ∀ nodes : List Node, (sitesFrom i nodes).map Prod.snd = preorderAll nodes
  | [] => rfl
  | node :: rest => by
      have hnode : ((sites node).map (under [i])).map Prod.snd = node.preorder := by
        rw [List.map_map, ← map_snd_sites node]
        rfl
      rw [sitesFrom, List.map_append, hnode, map_snd_sitesFrom (i + 1) rest, preorderAll]

end

theorem mem_sitesFrom {i : Nat} {nodes : List Node} {path : List Nat} {m : Node} :
    (path, m) ∈ sitesFrom i nodes ↔
      ∃ j child below, nodes[j]? = some child ∧ (below, m) ∈ child.sites ∧
        path = (i + j) :: below := by
  induction nodes generalizing i with
  | nil => simp [sitesFrom]
  | cons node rest ih =>
      rw [sitesFrom, List.mem_append, ih]
      constructor
      · rintro (h | ⟨j, child, below, hchild, hbelow, rfl⟩)
        · obtain ⟨⟨below, m⟩, hbelow, heq⟩ := List.mem_map.1 h
          obtain ⟨rfl, rfl⟩ := Prod.mk.inj heq
          exact ⟨0, node, below, rfl, hbelow, rfl⟩
        · exact ⟨j + 1, child, below, hchild, hbelow, by rw [Nat.add_right_comm, Nat.add_assoc]⟩
      · rintro ⟨j, child, below, hchild, hbelow, rfl⟩
        cases j with
        | zero =>
            obtain rfl := Option.some.inj hchild
            exact .inl (List.mem_map.2 ⟨(below, m), hbelow, rfl⟩)
        | succ j =>
            exact .inr ⟨j, child, below, hchild, hbelow, by rw [Nat.add_right_comm, Nat.add_assoc]⟩

/-- **The sites of a tree are its places, each with the node at it.** -/
theorem mem_sites {n : Node} {path : List Nat} {m : Node} :
    (path, m) ∈ n.sites ↔ n.nodeAt? path = some m := by
  induction path generalizing n with
  | nil =>
      obtain ⟨label, children⟩ := n
      simp [sites, nodeAt?, mem_sitesFrom, eq_comm]
  | cons i path ih =>
      obtain ⟨label, children⟩ := n
      simp only [sites, nodeAt?, List.mem_cons, Prod.mk.injEq, reduceCtorEq, false_and, false_or,
        mem_sitesFrom, Nat.zero_add, List.cons.injEq, children_mk, Option.bind_eq_some_iff]
      constructor
      · rintro ⟨i, child, path, hchild, hbelow, rfl, rfl⟩
        exact ⟨child, hchild, ih.1 hbelow⟩
      · rintro ⟨child, hchild, hbelow⟩
        exact ⟨i, child, path, hchild, ih.2 hbelow, rfl, rfl⟩

/-! ## 3. The order of places -/

/-- One place in front of another one, in lexicographic order. -/
def Before (a b : List Nat × Node) : Prop := a.1 < b.1

mutual

/-- **Places come in lexicographic order**: a node in front of all that hangs below it, and that in
    front of the next sibling. -/
theorem sites_sorted : ∀ n : Node, n.sites.Pairwise Before
  | .mk label children => by
      rw [sites, List.pairwise_cons]
      refine ⟨?_, sitesFrom_sorted 0 children⟩
      rintro ⟨path, m⟩ hmem
      obtain ⟨j, child, below, -, -, rfl⟩ := mem_sitesFrom.1 hmem
      exact List.nil_lt_cons _ _

theorem sitesFrom_sorted (i : Nat) : ∀ nodes : List Node, (sitesFrom i nodes).Pairwise Before
  | [] => List.Pairwise.nil
  | node :: rest => by
      rw [sitesFrom, List.pairwise_append]
      refine ⟨?_, sitesFrom_sorted (i + 1) rest, ?_⟩
      · exact (sites_sorted node).map (under [i]) fun a b hab => List.Lex.cons hab
      · rintro a ha ⟨path, m⟩ hmem
        obtain ⟨site, -, rfl⟩ := List.mem_map.1 ha
        obtain ⟨j, child, below, -, -, rfl⟩ := mem_sitesFrom.1 hmem
        exact List.Lex.rel (by omega)

end

theorem exists_sitesFrom_below (i : Nat) (nodes : List Node) {j : Nat} {child : Node}
    (h : nodes[j]? = some child) : ∃ before behind,
      sitesFrom i nodes = before ++ child.sites.map (under [i + j]) ++ behind := by
  induction nodes generalizing i j with
  | nil => simp at h
  | cons node rest ih =>
      cases j with
      | zero =>
          obtain rfl := Option.some.inj h
          exact ⟨[], sitesFrom (i + 1) rest, rfl⟩
      | succ j =>
          obtain ⟨before, behind, heq⟩ := ih (i + 1) h
          refine ⟨node.sites.map (under [i]) ++ before, behind, ?_⟩
          rw [sitesFrom, heq, Nat.add_right_comm, Nat.add_assoc i j 1]
          simp only [List.append_assoc]

/-- **What hangs below a node stands together**, in the order in which it stands in the tree of that
    node alone. -/
theorem exists_sites_below {n m : Node} {path : List Nat} (h : n.nodeAt? path = some m) :
    ∃ before behind, n.sites = before ++ m.sites.map (under path) ++ behind := by
  induction path generalizing n with
  | nil =>
      obtain rfl := Option.some.inj h
      refine ⟨[], [], ?_⟩
      have hunder : under [] = id := rfl
      rw [hunder, List.map_id, List.nil_append, List.append_nil]
  | cons i path ih =>
      obtain ⟨label, children⟩ := n
      obtain ⟨child, hchild, hbelow⟩ := Option.bind_eq_some_iff.1 h
      obtain ⟨before, behind, heq⟩ := ih hbelow
      obtain ⟨earlier, later, hall⟩ := exists_sitesFrom_below 0 children hchild
      refine ⟨([], .mk label children) :: earlier ++ before.map (under [i]),
        behind.map (under [i]) ++ later, ?_⟩
      have hunder : under [i] ∘ under path = under (i :: path) := rfl
      rw [sites, hall, heq, Nat.zero_add, List.map_append, List.map_append, List.map_map, hunder]
      simp only [List.append_assoc, List.cons_append]

/-! ## 4. The loop of a walk -/

/-- A walk on its way: the nodes that have been visited, and the stack with its top at the end. -/
structure Walker where
  visited : List Node
  stack : List Node

namespace Walker

/-- The walk with the root alone on its stack. -/
def start (root : Node) : Walker := ⟨[], [root]⟩

/-- One turn of the loop: the node on top is taken off and visited, and its children are put there
    in reverse. With an empty stack the loop has ended. -/
def turn (w : Walker) : Walker :=
  match w.stack.getLast? with
  | none => w
  | some node => ⟨w.visited ++ [node], w.stack.dropLast ++ node.children.reverse⟩

theorem turn_cons (visited : List Node) (node : Node) (pending : List Node) :
    turn ⟨visited, (node :: pending).reverse⟩ =
      ⟨visited ++ [node], (node.children ++ pending).reverse⟩ := by
  simp [turn]

/-- **Each turn visits the next node**, and as many nodes as there are turns to come are on the
    stack or below it. -/
theorem iterate_turn (visited stack : List Node) {k : Nat} (hk : k ≤ countAll stack) :
    ∃ pending, turn^[k] ⟨visited, stack.reverse⟩ =
        ⟨visited ++ (drain stack).take k, pending.reverse⟩ ∧
      countAll pending + k = countAll stack := by
  induction k generalizing visited stack with
  | zero => exact ⟨stack, by simp, rfl⟩
  | succ k ih =>
      cases stack with
      | nil => simp [countAll] at hk
      | cons node pending =>
          have hcount : countAll (node.children ++ pending) + 1 = countAll (node :: pending) := by
            rw [countAll_append, countAll, count_eq]
            omega
          obtain ⟨later, hturns, hlater⟩ :=
            ih (visited ++ [node]) (node.children ++ pending) (by omega)
          refine ⟨later, ?_, by omega⟩
          rw [Function.iterate_succ_apply, turn_cons, hturns, drain, List.take_succ_cons,
            List.append_assoc, List.singleton_append]

end Walker

theorem countAll_eq_zero {nodes : List Node} : countAll nodes = 0 ↔ nodes = [] := by
  cases nodes with
  | nil => simp [countAll]
  | cons node rest =>
      have hpos := count_eq node
      simp only [countAll, reduceCtorEq, iff_false]
      omega

/-- **A walk visits the nodes of a tree as a recursion does**: the node, then those below each child
    from first to last. Every place of the tree is visited once, in lexicographic order of the
    places, so that a parent comes before what hangs below it and siblings come in order; and all
    that hangs below one node is visited in one go. The loop takes one turn for each node: after so
    many turns that many nodes have been visited, and its stack is empty when the last one has. -/
theorem walk_preorder (root : Node) :
    root.walk = root.preorder ∧
      root.sites.map Prod.snd = root.walk ∧
      (∀ path n, (path, n) ∈ root.sites ↔ root.nodeAt? path = some n) ∧
      root.sites.Pairwise Before ∧
      (∀ path n, root.nodeAt? path = some n → ∃ before behind,
        root.sites = before ++ n.sites.map (under path) ++ behind) ∧
      ∀ k ≤ root.count,
        (Walker.turn^[k] (Walker.start root)).visited = root.walk.take k ∧
          ((Walker.turn^[k] (Walker.start root)).stack = [] ↔ k = root.count) := by
  have hwalk := walk_eq_preorder root
  refine ⟨hwalk, hwalk ▸ map_snd_sites root, fun _ _ => mem_sites, sites_sorted root,
    fun _ _ => exists_sites_below, fun k hk => ?_⟩
  have hroot : countAll [root] = root.count := by simp [countAll]
  obtain ⟨pending, hturns, hpending⟩ := Walker.iterate_turn [] [root] (hroot ▸ hk)
  have hstart : Walker.turn^[k] (Walker.start root) = ⟨root.walk.take k, pending.reverse⟩ := hturns
  rw [hstart, List.reverse_eq_nil_iff, ← countAll_eq_zero]
  exact ⟨rfl, by omega⟩

end Node

end Reckoner
