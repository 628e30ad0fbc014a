import Mathlib.Data.List.Nodup
import StaleRead.Tree.Walk

/-! # The nodes of a tree

The walk from the root lists the nodes of a tree. A node of a tree is the root or a child
of another node of the tree, so its parent, its ancestors and its children are nodes of
the tree as well. An ancestor is nearer to the root than what lies below it, and what lies
below a node lies within one of its children (`Tree.within_iff_children`). Where spans are
distinct, a node of the tree is known by its span (`Tree.SpansDistinct.eq_of_span_eq`).
-/

namespace StaleRead

/-- All nodes of a tree, parents first and left to right. -/
def Tree.nodes (tree : Tree) : List Node := (Node.root tree).walk

namespace Node

/-- How many steps lead from the root to a node. -/
def depth (node : Node) : Nat := node.above.length

theorem parent?_of_mem_siblings {parent : Tree} {above : List Step} {slot : Nat}
    {trees : List Tree} {child : Node} (member : child ∈ siblings parent above slot trees) :
    child.parent? = some ⟨parent, above⟩ := by
  induction trees generalizing slot with
  | nil => exact (List.not_mem_nil member).elim
  | cons tree rest ih =>
      rcases List.mem_cons.mp member with rfl | later
      · rfl
      · exact ih later

theorem parent?_of_mem_children {parent child : Node} (member : child ∈ parent.children) :
    child.parent? = some parent :=
  parent?_of_mem_siblings member

theorem getElem?_siblings (parent : Tree) (above : List Step) (first : Nat) (trees : List Tree)
    (place : Nat) :
    (siblings parent above first trees)[place]? =
      trees[place]?.map fun tree => ⟨tree, ⟨parent, first + place⟩ :: above⟩ := by
  induction trees generalizing first place with
  | nil => rfl
  | cons tree rest ih =>
      cases place with
      | zero => rfl
      | succ place =>
          rw [siblings, List.getElem?_cons_succ, List.getElem?_cons_succ, ih]
          simp only [Nat.add_assoc, Nat.add_comm 1]

/-- The child in a place is the subtree there, with one more step to the root. -/
theorem getElem?_children (node : Node) (place : Nat) :
    node.children[place]? =
      node.tree.children[place]?.map fun tree => ⟨tree, ⟨node.tree, place⟩ :: node.above⟩ := by
  rw [children, getElem?_siblings]
  simp only [Nat.zero_add]

theorem mem_children_of_child? {node child : Node} {field : String}
    (fills : node.child? field = some child) : child ∈ node.children :=
  List.mem_of_find?_eq_some fills

theorem mem_namedChildren {node child : Node} :
    child ∈ node.namedChildren ↔ child ∈ node.children ∧ child.isNamed = true :=
  List.mem_filter

theorem field?_of_child? {node child : Node} {field : String}
    (fills : node.child? field = some child) : child.field? = some field := by
  have found := List.find?_some fills
  rwa [decide_eq_true_iff] at found

theorem ancestors_of_parent? {node parent : Node} (sits : node.parent? = some parent) :
    node.ancestors = parent :: parent.ancestors := by
  rw [ancestors_eq, sits]

theorem depth_of_parent? {node parent : Node} (sits : node.parent? = some parent) :
    node.depth = parent.depth + 1 := by
  obtain ⟨tree, above⟩ := node
  cases above with
  | nil => simp [parent?] at sits
  | cons step above =>
      obtain rfl := Option.some.inj sits
      rfl

theorem depth_lt_of_mem_ancestors {node ancestor : Node} (member : ancestor ∈ node.ancestors) :
    ancestor.depth < node.depth := by
  obtain ⟨tree, above⟩ := node
  induction above generalizing tree with
  | nil => exact (List.not_mem_nil member).elim
  | cons step above ih =>
      rcases List.mem_cons.mp member with rfl | farther
      · exact Nat.lt_succ_self _
      · exact Nat.lt_succ_of_lt (ih step.parent farther)

theorem parent?_of_ancestors_eq_cons {node parent : Node} {farther : List Node}
    (split : node.ancestors = parent :: farther) :
    node.parent? = some parent ∧ parent.ancestors = farther := by
  rw [ancestors_eq] at split
  cases sits : node.parent? with
  | none => simp [sits] at split
  | some other =>
      rw [sits] at split
      obtain ⟨rfl, rest⟩ := List.cons.inj split
      exact ⟨rfl, rest⟩

/-- The ancestors of an ancestor are those behind it. -/
theorem ancestors_of_ancestors_eq_append {node ancestor : Node} {nearer farther : List Node}
    (split : node.ancestors = nearer ++ ancestor :: farther) : ancestor.ancestors = farther := by
  induction nearer generalizing node with
  | nil => exact (parent?_of_ancestors_eq_cons split).2
  | cons parent rest ih => exact ih (parent?_of_ancestors_eq_cons split).2

theorem nodup_ancestors (node : Node) : node.ancestors.Nodup := by
  obtain ⟨subtree, above⟩ := node
  induction above generalizing subtree with
  | nil => exact List.nodup_nil
  | cons step above ih =>
      refine List.nodup_cons.mpr ⟨?_, ih step.parent⟩
      intro member
      have lower : depth ⟨step.parent, above⟩ < depth ⟨step.parent, above⟩ :=
        depth_lt_of_mem_ancestors member
      exact Nat.lt_irrefl _ lower

/-- The slots that lead from the root to a node. -/
def path (node : Node) : List Nat := (node.above.map Step.slot).reverse

theorem path_of_getElem?_children {parent child : Node} {place : Nat}
    (found : parent.children[place]? = some child) : child.path = parent.path ++ [place] := by
  rw [getElem?_children, Option.map_eq_some_iff] at found
  obtain ⟨tree, _, rfl⟩ := found
  rw [path, List.map_cons, List.reverse_cons, path]

/-- A node is another one or lies below it. -/
def Within (node outer : Node) : Prop :=
  node = outer ∨ outer ∈ node.ancestors

theorem within_iff_of_parent? {node parent outer : Node} (sits : node.parent? = some parent) :
    node.Within outer ↔ node = outer ∨ parent.Within outer := by
  rw [Within, Within, ancestors_of_parent? sits, List.mem_cons, eq_comm (a := outer)]

theorem Within.depth_le {node outer : Node} (within : node.Within outer) :
    outer.depth ≤ node.depth := by
  rcases within with rfl | member
  · exact Nat.le_refl _
  · exact Nat.le_of_lt (depth_lt_of_mem_ancestors member)

theorem Within.mem_ancestors {node outer parent : Node} (within : node.Within outer)
    (sits : outer.parent? = some parent) : parent ∈ node.ancestors := by
  obtain ⟨tree, above⟩ := node
  induction above generalizing tree with
  | nil =>
      rcases within with rfl | member
      · simp [parent?] at sits
      · exact (List.not_mem_nil member).elim
  | cons step above ih =>
      rcases within with rfl | member
      · rw [ancestors_of_parent? sits]
        exact List.mem_cons_self
      · rcases List.mem_cons.mp member with rfl | farther
        · exact List.mem_cons_of_mem _ (ih step.parent (Or.inl rfl))
        · exact List.mem_cons_of_mem _ (ih step.parent (Or.inr farther))

/-- Of the nodes at one depth, a node lies below at most one. -/
theorem Within.eq_of_depth_eq {node first second : Node} (belowFirst : node.Within first)
    (belowSecond : node.Within second) (same : first.depth = second.depth) : first = second := by
  obtain ⟨tree, above⟩ := node
  induction above generalizing tree with
  | nil =>
      have alone : ∀ outer : Node, Within ⟨tree, []⟩ outer → outer = ⟨tree, []⟩ :=
        fun outer within => within.elim Eq.symm fun member => (List.not_mem_nil member).elim
      exact (alone _ belowFirst).trans (alone _ belowSecond).symm
  | cons step above ih =>
      have sits : parent? ⟨tree, step :: above⟩ = some ⟨step.parent, above⟩ := rfl
      have deeper := depth_of_parent? sits
      rw [within_iff_of_parent? sits] at belowFirst belowSecond
      rcases belowFirst with rfl | aboveFirst <;> rcases belowSecond with rfl | aboveSecond
      · rfl
      · have bound := aboveSecond.depth_le
        omega
      · have bound := aboveFirst.depth_le
        omega
      · exact ih step.parent aboveFirst aboveSecond

/-- Children of one node have nothing below them in common. -/
theorem Within.eq_of_mem_children {parent first second node : Node} (belowFirst : node.Within first)
    (belowSecond : node.Within second) (isFirst : first ∈ parent.children)
    (isSecond : second ∈ parent.children) : first = second := by
  refine belowFirst.eq_of_depth_eq belowSecond ?_
  rw [depth_of_parent? (parent?_of_mem_children isFirst),
    depth_of_parent? (parent?_of_mem_children isSecond)]

theorem size_lt_of_mem_children {parent child : Node} (member : child ∈ parent.children) :
    child.tree.size < parent.tree.size := by
  have among : child.tree ∈ parent.tree.children := by
    rw [← map_tree_children]
    exact List.mem_map_of_mem member
  obtain ⟨before, after, split⟩ := List.append_of_mem among
  rw [Tree.size_eq parent.tree, split]
  simp only [Tree.sizeOfAll_append, Tree.sizeOfAll_cons]
  omega

/-- What holds of a node as soon as it holds of its children holds of every node. -/
theorem children_induction {motive : Node → Prop}
    (step : ∀ node : Node, (∀ child ∈ node.children, motive child) → motive node)
    (node : Node) : motive node := by
  -- On the size: the children of a node are nodes with a way up, not subterms.
  induction size : node.tree.size using Nat.strongRecOn generalizing node with
  | ind size ih =>
      apply step
      intro child member
      exact ih _ (size ▸ size_lt_of_mem_children member) child rfl

theorem mem_walk_iff {node other : Node} :
    other ∈ node.walk ↔ other = node ∨ ∃ child ∈ node.children, other ∈ child.walk := by
  rw [walk_eq, List.mem_cons, List.mem_flatMap]

theorem mem_walk_self (node : Node) : node ∈ node.walk :=
  mem_walk_iff.mpr (Or.inl rfl)

/-- Whoever is met on a walk is its start or a child of someone met on it. -/
theorem eq_or_child_of_mem_walk {start node : Node} (met : node ∈ start.walk) :
    node = start ∨ ∃ parent ∈ start.walk, node ∈ parent.children := by
  induction start using children_induction with
  | step start ih =>
      rcases mem_walk_iff.mp met with same | ⟨child, member, below⟩
      · exact Or.inl same
      · rcases ih child member below with rfl | ⟨parent, inside, sits⟩
        · exact Or.inr ⟨start, mem_walk_self start, member⟩
        · exact Or.inr ⟨parent, mem_walk_iff.mpr (Or.inr ⟨child, member, inside⟩), sits⟩

theorem child_mem_walk {start parent child : Node} (met : parent ∈ start.walk)
    (member : child ∈ parent.children) : child ∈ start.walk := by
  induction start using children_induction with
  | step start ih =>
      rcases mem_walk_iff.mp met with rfl | ⟨first, isFirst, below⟩
      · exact mem_walk_iff.mpr (Or.inr ⟨child, member, mem_walk_self child⟩)
      · exact mem_walk_iff.mpr (Or.inr ⟨first, isFirst, ih first isFirst below⟩)

end Node

namespace Tree

variable {tree : Tree} {node : Node}

theorem root_mem_nodes (tree : Tree) : Node.root tree ∈ tree.nodes :=
  Node.mem_walk_self _

theorem child_mem_nodes {parent child : Node} (inside : parent ∈ tree.nodes)
    (member : child ∈ parent.children) : child ∈ tree.nodes :=
  Node.child_mem_walk inside member

theorem child?_mem_nodes {parent child : Node} {field : String} (inside : parent ∈ tree.nodes)
    (fills : parent.child? field = some child) : child ∈ tree.nodes :=
  child_mem_nodes inside (Node.mem_children_of_child? fills)

/-- The parent of a node of a tree is a node of the tree and has the node as a child. -/
theorem parent?_mem_nodes {parent : Node} (inside : node ∈ tree.nodes)
    (sits : node.parent? = some parent) : parent ∈ tree.nodes ∧ node ∈ parent.children := by
  rcases Node.eq_or_child_of_mem_walk inside with rfl | ⟨other, inside, member⟩
  · simp [Node.parent?, Node.root] at sits
  · obtain rfl := Option.some.inj (sits.symm.trans (Node.parent?_of_mem_children member))
    exact ⟨inside, member⟩

/-- What holds of the root and passes from each node of a tree to its children holds of all
nodes of the tree. -/
theorem node_induction {motive : Node → Prop} (inside : node ∈ tree.nodes)
    (root : motive (Node.root tree))
    (child : ∀ parent ∈ tree.nodes, motive parent → ∀ child ∈ parent.children, motive child) :
    motive node := by
  obtain ⟨subtree, above⟩ := node
  induction above generalizing subtree with
  | nil =>
      rcases Node.eq_or_child_of_mem_walk inside with same | ⟨parent, _, member⟩
      · rwa [same]
      · have sits := Node.parent?_of_mem_children member
        simp [Node.parent?] at sits
  | cons step above ih =>
      obtain ⟨parentInside, member⟩ := parent?_mem_nodes inside rfl
      exact child _ parentInside (ih step.parent parentInside) _ member

/-- A node of a tree is known by the slots that lead to it. -/
theorem eq_of_path_eq {other : Node} (inside : node ∈ tree.nodes)
    (otherInside : other ∈ tree.nodes) (same : node.path = other.path) : node = other := by
  have paths : ∀ other ∈ tree.nodes, node.path = other.path → node = other := by
    apply node_induction inside
    · intro other otherInside same
      rcases Node.eq_or_child_of_mem_walk otherInside with rfl | ⟨parent, _, member⟩
      · rfl
      · obtain ⟨place, found⟩ := List.getElem?_of_mem member
        rw [Node.path_of_getElem?_children found] at same
        exact (List.append_ne_nil_of_right_ne_nil _ (List.cons_ne_nil _ _) same.symm).elim
    · intro parent _ ih child member other otherInside same
      obtain ⟨place, found⟩ := List.getElem?_of_mem member
      rw [Node.path_of_getElem?_children found] at same
      rcases Node.eq_or_child_of_mem_walk otherInside with rfl | ⟨upper, upperInside, member⟩
      · exact (List.append_ne_nil_of_right_ne_nil _ (List.cons_ne_nil _ _) same).elim
      · obtain ⟨otherPlace, otherFound⟩ := List.getElem?_of_mem member
        rw [Node.path_of_getElem?_children otherFound] at same
        obtain ⟨parents, places⟩ := List.append_inj' same rfl
        obtain rfl := ih upper upperInside parents
        obtain rfl := List.singleton_injective places
        exact Option.some.inj (found.symm.trans otherFound)
  exact paths other otherInside same

theorem mem_nodes_of_mem_ancestors {ancestor : Node} (inside : node ∈ tree.nodes)
    (member : ancestor ∈ node.ancestors) : ancestor ∈ tree.nodes := by
  obtain ⟨subtree, above⟩ := node
  induction above generalizing subtree with
  | nil => exact (List.not_mem_nil member).elim
  | cons step above ih =>
      have parentInside : ⟨step.parent, above⟩ ∈ tree.nodes := (parent?_mem_nodes inside rfl).1
      rcases List.mem_cons.mp member with rfl | farther
      · exact parentInside
      · exact ih step.parent parentInside farther

/-- What lies below a node is the node, or lies below one of its children. -/
theorem within_iff_children {outer : Node} (inside : node ∈ tree.nodes) :
    node.Within outer ↔ node = outer ∨ ∃ child ∈ outer.children, node.Within child := by
  constructor
  · intro within
    obtain ⟨subtree, above⟩ := node
    induction above generalizing subtree with
    | nil => exact Or.inl (within.resolve_right (List.not_mem_nil ·))
    | cons step above ih =>
        obtain ⟨parentInside, member⟩ := parent?_mem_nodes inside rfl
        rcases within with same | farther
        · exact Or.inl same
        · refine Or.inr ?_
          rcases List.mem_cons.mp farther with rfl | farther
          · exact ⟨_, member, Or.inl rfl⟩
          · rcases ih step.parent parentInside (Or.inr farther) with same | ⟨child, sits, below⟩
            · exact ⟨_, same ▸ member, Or.inl rfl⟩
            · refine ⟨child, sits, (Node.within_iff_of_parent? rfl).mpr (Or.inr below)⟩
  · rintro (same | ⟨child, sits, below⟩)
    · exact Or.inl same
    · exact Or.inr (below.mem_ancestors (Node.parent?_of_mem_children sits))

instance (tree : Tree) : Decidable tree.SpansDistinct :=
  inferInstanceAs (Decidable (List.Nodup _))

/-- A node is the only one of its tree with its span. -/
def KnowsBySpan (tree : Tree) (node : Node) : Prop :=
  ∀ other ∈ tree.nodes, other.span = node.span → other = node

theorem SpansDistinct.knowsBySpan (distinct : tree.SpansDistinct) (inside : node ∈ tree.nodes) :
    tree.KnowsBySpan node :=
  fun _ other same => List.inj_on_of_nodup_map distinct other inside same

theorem SpansDistinct.eq_of_span_eq (distinct : tree.SpansDistinct) {other : Node}
    (inside : node ∈ tree.nodes) (otherInside : other ∈ tree.nodes)
    (same : node.span = other.span) : node = other :=
  distinct.knowsBySpan otherInside node inside same

end Tree

/-- The walk with a stack visits what the walks from the nodes on the stack visit. -/
theorem stackWalkFrom_eq (stack : List Node) :
    stackWalkFrom stack = stack.flatMap Node.walk := by
  fun_induction stackWalkFrom stack with
  | case1 => rfl
  | case2 node rest ih =>
      rw [ih, List.flatMap_cons, List.flatMap_append, Node.walk_eq node, List.cons_append]

theorem stackWalk_eq_nodes (tree : Tree) : stackWalk tree = tree.nodes := by
  rw [stackWalk, stackWalkFrom_eq, List.flatMap_singleton, Tree.nodes]

end StaleRead
