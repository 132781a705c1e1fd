import Reckoner.Node

/-!
# Walking through a tree

The nodes of a tree in the order of a walk that keeps the nodes still to be visited on one stack.

* `Node.drain` -- takes the node on top of the stack, puts its children there instead, first child
  on top, and goes on until the stack is empty;
* `Node.walk` -- the walk that starts with the root alone on the stack;
* `length_drain` -- the walk takes one step for each node.
-/

namespace Reckoner

namespace Node

theorem count_eq (node : Node) : node.count = countAll node.children + 1 := by
  cases node
  simp [count]

/-- Visits the nodes on a stack and all that hangs below them. -/
def drain : List Node → List Node
  | [] => []
  | node :: pending => node :: drain (node.children ++ pending)
termination_by stack => countAll stack
decreasing_by
  have h := count_eq node
  simp [countAll]
  omega

/-- The nodes of a tree, parents before their children. -/
def walk (root : Node) : List Node := drain [root]

/-- **The walk takes as many steps as there are nodes below the stack.** -/
theorem length_drain (stack : List Node) : (drain stack).length = countAll stack := by
  fun_induction drain stack with
  | case1 => rfl
  | case2 node pending ih =>
      have h := count_eq node
      simp only [List.length_cons, ih, countAll_append, countAll]
      omega

theorem length_walk (root : Node) : root.walk.length = root.count := by
  simp [walk, length_drain, countAll]

end Node

end Reckoner
