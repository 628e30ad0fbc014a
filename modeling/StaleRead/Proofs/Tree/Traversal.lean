import StaleRead.Proofs.Tree.Nodes

/-! # The traversal with a stack

A walk numbers the nodes that it visits one after the other (`Node.map_index_walk`), so it visits
none twice, and whatever is above a node before the node. The traversal with a stack goes round by
round: it visits the node on top and puts the children there. What it has visited, followed by the
walks from the nodes on the stack, stays the same (`Traversal.course`), and each round makes the
first part longer by one node. So the traversal is the walk of the whole tree, is a beginning of it
at any time, and ends after as many rounds as the tree has nodes (`stackWalk_preorder`).
-/

namespace StaleRead

namespace Node

/-- A node occurs in a tree as its root, or as a child, named or not, of a node that occurs. -/
inductive OccursIn (tree : Tree) : Node → Prop
  | root : OccursIn tree (Node.root tree)
  | child {parent child : Node} (occurs : OccursIn tree parent)
      (member : child ∈ parent.children) : OccursIn tree child

theorem mem_nodes_iff_occursIn {tree : Tree} {node : Node} :
    node ∈ tree.nodes ↔ OccursIn tree node := by
  constructor
  · intro inside
    apply Tree.node_induction inside
    · exact .root
    · intro parent _ occurs child member
      exact .child occurs member
  · intro occurs
    induction occurs with
    | root => exact tree.root_mem_nodes
    | child _ member inside => exact Tree.child_mem_nodes inside member

/-! ## The numbers of the nodes on a walk -/

/-- Siblings come one after the other, each with everything below it, behind their parent and
the siblings before them. -/
theorem flatMap_map_index_siblings {parent : Tree} {above : List Step} (before trees : List Tree)
    (split : parent.children = before ++ trees)
    (walks : ∀ child ∈ siblings parent above before.length trees,
      child.walk.map index = List.range' child.index child.tree.size) :
    (siblings parent above before.length trees).flatMap (fun child => child.walk.map index) =
      List.range' (position above + 1 + Tree.sizeOfAll before) (Tree.sizeOfAll trees) := by
  induction trees generalizing before with
  | nil => rfl
  | cons tree rest ih =>
      have first : (walk ⟨tree, ⟨parent, before.length⟩ :: above⟩).map index =
          List.range' (position above + 1 + Tree.sizeOfAll before) tree.size := by
        rw [walks _ List.mem_cons_self, index, position, split, List.take_left]
      have later := ih (before ++ [tree]) (by rw [split, List.append_assoc]; rfl)
        (by
          intro child member
          rw [List.length_append, List.length_singleton] at member
          exact walks child (List.mem_cons_of_mem _ member))
      simp only [List.length_append, List.length_singleton, Tree.sizeOfAll_append,
        Tree.sizeOfAll_cons, Tree.sizeOfAll_nil, Nat.add_zero, ← Nat.add_assoc] at later
      rw [siblings, List.flatMap_cons, first, later, List.range'_append_1, Tree.sizeOfAll_cons]

/-- A walk numbers its nodes one after the other, from the number of its start. -/
theorem map_index_walk (node : Node) :
    node.walk.map index = List.range' node.index node.tree.size := by
  induction node using children_induction with
  | step node ih =>
      have below := flatMap_map_index_siblings [] node.tree.children rfl ih
      rw [walk_eq, List.map_cons, List.map_flatMap, Tree.size_eq, Nat.add_comm 1, List.range'_succ]
      exact congrArg (node.index :: ·) below

theorem map_index_nodes (tree : Tree) : tree.nodes.map index = List.range tree.size := by
  rw [Tree.nodes, map_index_walk, List.range_eq_range']
  rfl

/-- No walk visits a node twice. -/
theorem nodup_walk (node : Node) : node.walk.Nodup := by
  apply List.Nodup.of_map index
  rw [map_index_walk]
  exact List.nodup_range'

theorem length_nodes (tree : Tree) : tree.nodes.length = tree.size := by
  rw [← List.length_map index, map_index_nodes, List.length_range]

theorem index_lt_of_mem_ancestors {node ancestor : Node} (member : ancestor ∈ node.ancestors) :
    ancestor.index < node.index := by
  obtain ⟨tree, above⟩ := node
  induction above generalizing tree with
  | nil => exact (List.not_mem_nil member).elim
  | cons step above ih =>
      have nearer : index ⟨step.parent, above⟩ < index ⟨tree, step :: above⟩ :=
        Nat.lt_of_lt_of_le (Nat.lt_succ_self _) (Nat.le_add_right _ _)
      rcases List.mem_cons.mp member with rfl | farther
      · exact nearer
      · exact Nat.lt_trans (ih step.parent farther) nearer

/-- Every ancestor of a node stands before the node. -/
theorem ancestors_subset_of_nodes_eq {tree : Tree} {node : Node} {before behind : List Node}
    (split : tree.nodes = before ++ node :: behind) : node.ancestors ⊆ before := by
  intro ancestor member
  have ascending : tree.nodes.Pairwise fun first second => first.index < second.index := by
    rw [← List.pairwise_map, map_index_nodes]
    exact List.pairwise_lt_range
  have inside : node ∈ tree.nodes := split ▸ List.mem_append_right _ List.mem_cons_self
  have ancestorInside := Tree.mem_nodes_of_mem_ancestors inside member
  have smaller := index_lt_of_mem_ancestors member
  rw [split] at ascending ancestorInside
  have later := (List.pairwise_cons.mp (List.pairwise_append.mp ascending).2.1).1
  rcases List.mem_append.mp ancestorInside with found | found
  · exact found
  · rcases List.mem_cons.mp found with rfl | found
    · exact (Nat.lt_irrefl _ smaller).elim
    · exact (Nat.lt_asymm smaller (later ancestor found)).elim

end Node

/-! ## The rounds of the traversal -/

/-- A traversal under way: the nodes that it has visited, and the stack of those that it has come
across, with the next one on top. -/
structure Traversal where
  visited : List Node
  stack : List Node

namespace Traversal

/-- The traversal of a tree before its first round. -/
def start (tree : Tree) : Traversal := ⟨[], [Node.root tree]⟩

/-- The traversal after one more round, which visits the node on top and puts its children there,
the leftmost on top. With nothing on the stack the traversal has ended. -/
def round? : Traversal → Option Traversal
  | ⟨_, []⟩ => none
  | ⟨visited, node :: rest⟩ => some ⟨visited ++ [node], node.children ++ rest⟩

/-- The traversal after some more rounds, if it takes so many. -/
def after? : Nat → Traversal → Option Traversal
  | 0, traversal => some traversal
  | rounds + 1, traversal => traversal.round?.bind (after? rounds)

/-- What has been visited, and the walks from the nodes on the stack. -/
def course (traversal : Traversal) : List Node :=
  traversal.visited ++ traversal.stack.flatMap Node.walk

variable {traversal next : Traversal}

theorem course_start (tree : Tree) : (start tree).course = tree.nodes := by
  rw [course, start, List.nil_append, List.flatMap_singleton, Tree.nodes]

/-- A round visits one more node of the course and keeps the course. -/
theorem course_of_round? (goes : traversal.round? = some next) :
    next.course = traversal.course ∧ next.visited.length = traversal.visited.length + 1 := by
  obtain ⟨visited, stack⟩ := traversal
  cases stack with
  | nil => simp [round?] at goes
  | cons node rest =>
      obtain rfl := Option.some.inj goes
      refine ⟨?_, List.length_append⟩
      simp only [course, List.flatMap_append, List.flatMap_cons, Node.walk_eq node,
        List.append_assoc, List.cons_append, List.nil_append]

/-- There is no further round exactly if the course has been visited. -/
theorem round?_eq_none_iff :
    traversal.round? = none ↔ traversal.course.length ≤ traversal.visited.length := by
  obtain ⟨visited, stack⟩ := traversal
  cases stack with
  | nil => simp [round?, course]
  | cons node rest => simp [round?, course, Node.walk_eq node]

/-- Some rounds visit as many nodes of the course and keep the course. -/
theorem course_of_after? {rounds : Nat} (goes : traversal.after? rounds = some next) :
    next.course = traversal.course ∧
      next.visited.length = traversal.visited.length + rounds := by
  induction rounds generalizing traversal with
  | zero =>
      obtain rfl := Option.some.inj goes
      exact ⟨rfl, rfl⟩
  | succ rounds ih =>
      obtain ⟨middle, first, later⟩ := Option.bind_eq_some_iff.mp goes
      obtain ⟨sameFirst, oneMore⟩ := course_of_round? first
      obtain ⟨sameLater, more⟩ := ih later
      refine ⟨sameLater.trans sameFirst, ?_⟩
      omega

/-- The rounds are as many as there are nodes of the course to visit. -/
theorem after?_eq_none_iff {rounds : Nat} :
    traversal.after? rounds = none ↔
      traversal.course.length < traversal.visited.length + rounds := by
  induction rounds generalizing traversal with
  | zero =>
      have bound : traversal.visited.length ≤ traversal.course.length := by
        rw [course, List.length_append]
        omega
      simp only [after?, reduceCtorEq, false_iff]
      omega
  | succ rounds ih =>
      cases goes : traversal.round? with
      | none =>
          have done := round?_eq_none_iff.mp goes
          simp only [after?, goes, Option.bind_none, true_iff]
          omega
      | some next =>
          obtain ⟨same, oneMore⟩ := course_of_round? goes
          rw [after?, goes, Option.bind_some, ih, same, oneMore]
          omega

/-- After any number of rounds a traversal has visited the beginning of its course, until there
is nothing left. -/
theorem map_visited_after? (tree : Tree) (rounds : Nat) :
    ((start tree).after? rounds).map visited =
      if rounds ≤ tree.size then some (tree.nodes.take rounds) else none := by
  cases goes : (start tree).after? rounds with
  | none =>
      rw [after?_eq_none_iff, course_start, Node.length_nodes, start, List.length_nil,
        Nat.zero_add] at goes
      rw [Option.map_none, if_neg (Nat.not_le.mpr goes)]
  | some next =>
      obtain ⟨same, counted⟩ := course_of_after? goes
      rw [course_start] at same
      rw [start, List.length_nil, Nat.zero_add] at counted
      have bound : rounds ≤ tree.size := by
        rw [← Node.length_nodes, ← same, course, List.length_append, counted]
        omega
      rw [Option.map_some, if_pos bound, ← same, course, ← counted, List.take_left]

end Traversal

/-- Some nodes are those of a tree in pre-order. -/
structure Tree.Preorder (tree : Tree) (listed : List Node) : Prop where
  /-- The recursive walk: a node, then the walks of its children from left to right. -/
  recursive : listed = (Node.root tree).walk
  complete : ∀ node, node ∈ listed ↔ Node.OccursIn tree node
  once : listed.Nodup
  /-- A node stands behind as many others as the tree has before it. -/
  numbered : listed.map Node.index = List.range tree.size
  downward : ∀ before node behind, listed = before ++ node :: behind → node.ancestors ⊆ before

/-- **The traversal with a stack is the walk.** It visits every node of the tree once, in the order
of the recursive walk, with all ancestors of a node before the node. Round by round it visits the
next node of the walk, and after as many rounds as the tree has nodes it has ended. -/
theorem stackWalk_preorder (tree : Tree) :
    tree.Preorder (stackWalk tree) ∧
      ∀ rounds, ((Traversal.start tree).after? rounds).map Traversal.visited =
        if rounds ≤ tree.size then some ((stackWalk tree).take rounds) else none := by
  rw [stackWalk_eq_nodes]
  refine ⟨⟨rfl, fun _ => Node.mem_nodes_iff_occursIn, Node.nodup_walk _,
    Node.map_index_nodes tree, ?_⟩, Traversal.map_visited_after? tree⟩
  intro before node behind split
  exact Node.ancestors_subset_of_nodes_eq split

end StaleRead
