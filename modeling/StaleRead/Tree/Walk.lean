import StaleRead.Tree.Node

/-! # Walks

`Node.walk` lists a node and everything below it, parents first and left to right.
`stackWalk` produces the same order with an explicit stack of nodes that are still
to be visited, which needs no call depth.
-/

namespace StaleRead

namespace Node

mutual

/-- The walk of a subtree at the given steps. -/
def walkAt : Tree → List Step → List Node
  | ⟨kind, named, field, start, stop, children⟩, above =>
      let tree : Tree := ⟨kind, named, field, start, stop, children⟩
      ⟨tree, above⟩ :: walkSiblings children tree above 0

/-- The walks of sibling subtrees, one after the other, numbered from `slot`. -/
def walkSiblings : List Tree → Tree → List Step → Nat → List Node
  | [], _, _, _ => []
  | tree :: rest, parent, above, slot =>
      walkAt tree (⟨parent, slot⟩ :: above) ++ walkSiblings rest parent above (slot + 1)

end

/-- A node, then the walks of its children from left to right. -/
def walk (node : Node) : List Node :=
  walkAt node.tree node.above

theorem walkSiblings_eq (trees : List Tree) (parent : Tree) (above : List Step) (slot : Nat) :
    walkSiblings trees parent above slot = (siblings parent above slot trees).flatMap walk := by
  induction trees generalizing slot with
  | nil => simp [walkSiblings, siblings]
  | cons tree rest ih => simp [walkSiblings, siblings, ih, walk]

theorem walk_eq (node : Node) : node.walk = node :: node.children.flatMap walk := by
  obtain ⟨⟨kind, named, field, start, stop, children⟩, above⟩ := node
  rw [walk, walkAt, walkSiblings_eq]
  rfl

/-- The number of nodes at and below some nodes. -/
def totalSize (nodes : List Node) : Nat :=
  Tree.sizeOfAll (nodes.map Node.tree)

theorem totalSize_push (node : Node) (rest : List Node) :
    totalSize (node.children ++ rest) < totalSize (node :: rest) := by
  simp only [totalSize, List.map_append, map_tree_children, List.map_cons, Tree.sizeOfAll_append,
    Tree.sizeOfAll_cons, Tree.size_eq node.tree]
  omega

end Node

/-- Visit the node on top of the stack, then put its children on the stack with the
leftmost on top. -/
def stackWalkFrom : List Node → List Node
  | [] => []
  | node :: rest => node :: stackWalkFrom (node.children ++ rest)
termination_by stack => Node.totalSize stack
decreasing_by exact Node.totalSize_push node rest

/-- All nodes of a tree in the order of the explicit-stack traversal. -/
def stackWalk (tree : Tree) : List Node :=
  stackWalkFrom [Node.root tree]

/-- No two nodes of a tree have one span. -/
def Tree.SpansDistinct (tree : Tree) : Prop :=
  ((Node.root tree).walk.map Node.span).Nodup

end StaleRead
