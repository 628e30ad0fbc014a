import StaleRead.Component
import StaleRead.Proofs.Tree.Nodes

/-! # Components around nodes

The component around a node is defined by an ancestor of the node, and that ancestor
alone says which component it is. So where spans are distinct, components of one tree
with one span are the same (`Component.eq_of_span_eq`).
-/

namespace StaleRead.Component

variable {source : Source} {conventions : Conventions} {tree : Tree}

/-- An ancestor only ever decides for the component that it defines itself. -/
theorem node_of_decide? {ancestor : Node} {component : Component}
    (decides : decide? source conventions ancestor = some (some component)) :
    component.node = ancestor := by
  rw [decide?] at decides
  split_ifs at decides
  · have defined := Option.some.inj decides
    obtain ⟨superclass, _, extended⟩ := Option.bind_eq_some_iff.mp defined
    rw [Option.ite_none_right_eq_some] at extended
    exact (congrArg Component.node (Option.some.inj extended.2)).symm
  · obtain ⟨_, defined, same⟩ := Option.map_eq_some_iff.mp decides
    obtain rfl := Option.some.inj same
    simp only [ofObject?, Option.bind_eq_bind, Option.bind_eq_some_iff,
      Option.ite_none_right_eq_some] at defined
    obtain ⟨_, _, _, _, _, _, _, _, _, same⟩ := defined
    exact (congrArg Component.node (Option.some.inj same)).symm

/-- Only classes and objects decide about components. -/
theorem kind_of_decide? {ancestor : Node} {component? : Option Component}
    (decides : decide? source conventions ancestor = some component?) :
    ancestor.kind ∈ classKinds ∨ ancestor.kind = "object" := by
  rw [decide?] at decides
  split_ifs at decides with isClass isObject
  · exact Or.inl isClass.1
  · exact Or.inr isObject

theorem decide?_of_around? {node : Node} {component : Component}
    (sits : around? source conventions node = some component) :
    component.node ∈ node.ancestors ∧
      decide? source conventions component.node = some (some component) := by
  have nearest := Option.join_eq_some_iff.mp sits
  obtain ⟨ancestor, member, decides⟩ := List.exists_of_findSome?_eq_some nearest
  rw [node_of_decide? decides]
  exact ⟨member, decides⟩

theorem node_mem_nodes {node : Node} {component : Component} (inside : node ∈ tree.nodes)
    (sits : around? source conventions node = some component) : component.node ∈ tree.nodes :=
  Tree.mem_nodes_of_mem_ancestors inside (decide?_of_around? sits).1

/-- Components of a tree are known by their spans. -/
theorem eq_of_span_eq (distinct : tree.SpansDistinct) {first second : Node}
    (firstInside : first ∈ tree.nodes) (secondInside : second ∈ tree.nodes)
    {component other : Component} (sits : around? source conventions first = some component)
    (otherSits : around? source conventions second = some other)
    (same : component.span = other.span) : component = other := by
  have oneNode : component.node = other.node :=
    distinct.eq_of_span_eq (node_mem_nodes firstInside sits)
      (node_mem_nodes secondInside otherSits) same
  have decides := (decide?_of_around? sits).2
  rw [oneNode, (decide?_of_around? otherSits).2] at decides
  exact (Option.some.inj (Option.some.inj decides)).symm

end StaleRead.Component
