import StaleRead.Source
import StaleRead.Tree.Basic

/-! # Nodes of a tree

A node is a subtree together with the steps that lead from it to the root, the
nearest first. So a node knows its parent and its ancestors, and every question
about its surroundings is a recursion on the steps above it.
-/

namespace StaleRead

/-- One step down a tree: the parent and the place among its children. -/
structure Step where
  parent : Tree
  slot : Nat

/-- A subtree with the way up to the root. -/
structure Node where
  tree : Tree
  above : List Step

namespace Node

/-- The root of a tree. -/
def root (tree : Tree) : Node := ⟨tree, []⟩

/-- The kind of a node. -/
def kind (node : Node) : String := node.tree.kind

/-- The span of a node, which identifies it. -/
def span (node : Node) : Span := node.tree.span

/-- Whether the grammar names the node. -/
def isNamed (node : Node) : Bool := node.tree.named

/-- The field that the node fills in its parent. -/
def field? (node : Node) : Option String := node.tree.field

/-- The text of a node in its source file. -/
def text (source : Source) (node : Node) : String :=
  source.text node.tree.start node.tree.stop

/-- The node that a node sits in. -/
def parent? (node : Node) : Option Node :=
  match node.above with
  | [] => none
  | step :: above => some ⟨step.parent, above⟩

/-- The nodes along the steps, from the nearest to the root. -/
def along : List Step → List Node
  | [] => []
  | step :: above => ⟨step.parent, above⟩ :: along above

/-- The proper ancestors of a node, from its parent to the root. -/
def ancestors (node : Node) : List Node :=
  along node.above

/-- The first answer that an ancestor gives, from the parent to the root. -/
def nearest? {α : Type} (node : Node) (question : Node → Option α) : Option α :=
  node.ancestors.findSome? question

/-- The nodes of some sibling subtrees, numbered from `slot`. -/
def siblings (parent : Tree) (above : List Step) : Nat → List Tree → List Node
  | _, [] => []
  | slot, tree :: rest =>
      ⟨tree, ⟨parent, slot⟩ :: above⟩ :: siblings parent above (slot + 1) rest

/-- The children of a node, left to right. -/
def children (node : Node) : List Node :=
  siblings node.tree node.above 0 node.tree.children

/-- The children that the grammar names. -/
def namedChildren (node : Node) : List Node :=
  node.children.filter isNamed

/-- The first child that fills a field. -/
def child? (node : Node) (field : String) : Option Node :=
  node.children.find? (·.field? = some field)

/-- The number of nodes before the one that the steps lead to, left to right and
parents first. -/
def position : List Step → Nat
  | [] => 0
  | step :: above =>
      position above + 1 + Tree.sizeOfAll (step.parent.children.take step.slot)

/-- The place of a node among all nodes of its tree, parents first and left to
right; the root has place zero. -/
def index (node : Node) : Nat := position node.above

@[simp] theorem map_tree_siblings (parent : Tree) (above : List Step) (trees : List Tree)
    (slot : Nat) : (siblings parent above slot trees).map Node.tree = trees := by
  induction trees generalizing slot with
  | nil => rfl
  | cons tree rest ih => simp [siblings, ih]

@[simp] theorem map_tree_children (node : Node) :
    node.children.map Node.tree = node.tree.children :=
  map_tree_siblings ..

theorem ancestors_eq (node : Node) :
    node.ancestors = match node.parent? with
      | none => []
      | some parent => parent :: parent.ancestors := by
  obtain ⟨tree, above⟩ := node
  cases above <;> rfl

end Node

end StaleRead
