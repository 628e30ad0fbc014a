import StaleRead.Proofs.Tree.Nodes
import StaleRead.Shape.Call

/-! # What lies in the first argument

A state update holds a node if the node is its first argument or lies below it. Where the
spans of a tree are distinct, the climb that compares spans on its way up decides just
that (`StateUpdate.holdsInFirst_iff`), so a node has an enclosing update exactly if some
update holds it (`Node.enclosingUpdate?_isSome_iff`).
-/

namespace StaleRead

variable {source : Source} {tree : Tree}

namespace Node

/-- The argument list of a call, and its first argument, if it has one. -/
theorem exists_list_of_mem_arguments {call argument : Node}
    (member : argument ∈ call.arguments) :
    ∃ list, call.child? "arguments" = some list ∧ argument ∈ list.children := by
  rw [arguments] at member
  cases found : call.child? "arguments" with
  | none => simp [found] at member
  | some list =>
      rw [found] at member
      have named := (List.mem_filter.mp member).1
      exact ⟨list, rfl, (mem_namedChildren.mp named).1⟩

end Node

namespace StateUpdate

/-- The node is the first argument of the update or lies below it. -/
def Holds (update : StateUpdate) (node : Node) : Prop :=
  ∃ first, update.first? = some first ∧ node.Within first

theorem eq_of_ofNode? {call : Node} {update : StateUpdate}
    (isUpdate : ofNode? source call = some update) :
    update = ⟨call, call.child? "arguments", call.arguments.head?⟩ := by
  rw [ofNode?, Option.ite_none_right_eq_some] at isUpdate
  exact (Option.some.inj isUpdate.2).symm

theorem kind_of_ofNode? {call : Node} {update : StateUpdate}
    (isUpdate : ofNode? source call = some update) : call.kind = "call_expression" := by
  rw [ofNode?, Option.ite_none_right_eq_some] at isUpdate
  exact isUpdate.1.1

/-- The call of an update is an ancestor of everything that the update holds. -/
theorem Holds.call_mem_ancestors {call node : Node} {update : StateUpdate}
    (isUpdate : ofNode? source call = some update) (holds : update.Holds node) :
    call ∈ node.ancestors := by
  obtain ⟨first, leads, within⟩ := holds
  obtain rfl := eq_of_ofNode? isUpdate
  obtain ⟨list, found, member⟩ :=
    Node.exists_list_of_mem_arguments (List.mem_of_head? leads)
  have listSits := Node.parent?_of_mem_children (Node.mem_children_of_child? found)
  have below : node.Within list :=
    Or.inr (within.mem_ancestors (Node.parent?_of_mem_children member))
  exact below.mem_ancestors listSits

/-- The climb from a node ends at the first argument of a call exactly if the node lies
there. The call, its argument list and the argument are told by their spans, which is
right because each of them is the only node with its span. -/
theorem climb_iff (distinct : tree.SpansDistinct) {call list first : Node}
    (inside : call ∈ tree.nodes) (listSits : list ∈ call.children)
    (firstSits : first ∈ list.children) {node : Node} (nodeInside : node ∈ tree.nodes) :
    climb call.span list.span first.span node.span node.above = true ↔ node.Within first := by
  have listInside := Tree.child_mem_nodes inside listSits
  have firstInside := Tree.child_mem_nodes listInside firstSits
  have listDepth := Node.depth_of_parent? (Node.parent?_of_mem_children listSits)
  have firstDepth := Node.depth_of_parent? (Node.parent?_of_mem_children firstSits)
  obtain ⟨subtree, above⟩ := node
  induction above generalizing subtree with
  | nil =>
      -- The root is no argument.
      refine iff_of_false (by simp [climb]) fun within => ?_
      have bound := within.depth_le
      simp only [Node.depth, List.length_nil] at bound firstDepth
      omega
  | cons step above ih =>
      have sits : Node.parent? ⟨subtree, step :: above⟩ = some ⟨step.parent, above⟩ := rfl
      have parentInside := (Tree.parent?_mem_nodes nodeInside sits).1
      rw [climb, Node.within_iff_of_parent? sits]
      by_cases atList : step.parent.span = list.span
      · have parentIs : (⟨step.parent, above⟩ : Node) = list :=
          distinct.eq_of_span_eq parentInside listInside atList
        have notAbove : ¬ Node.Within ⟨step.parent, above⟩ first := by
          intro within
          have bound := within.depth_le
          rw [parentIs, firstDepth] at bound
          omega
        rw [if_pos atList, beq_iff_eq, or_iff_left notAbove]
        exact ⟨distinct.eq_of_span_eq nodeInside firstInside, congrArg Node.span⟩
      · have notFirst : (⟨subtree, step :: above⟩ : Node) ≠ first := by
          rintro rfl
          have parentIs := Option.some.inj (Node.parent?_of_mem_children firstSits)
          exact atList (congrArg Node.span parentIs)
        rw [if_neg atList, or_iff_right notFirst]
        by_cases atCall : Node.span ⟨subtree, step :: above⟩ = call.span
        · have nodeIs := distinct.eq_of_span_eq nodeInside inside atCall
          rw [if_pos atCall]
          refine iff_of_false Bool.false_ne_true fun within => ?_
          have bound := within.depth_le
          have callDepth := congrArg Node.depth nodeIs
          rw [Node.depth_of_parent? sits] at callDepth
          omega
        · rw [if_neg atCall]
          exact ih step.parent parentInside

/-- An update holds a node in the sense of the climb exactly if the node is its first
argument or lies below it. -/
theorem holdsInFirst_iff (distinct : tree.SpansDistinct) {call node : Node}
    {update : StateUpdate} (isUpdate : ofNode? source call = some update)
    (inside : call ∈ tree.nodes) (nodeInside : node ∈ tree.nodes) :
    update.holdsInFirst node = true ↔ update.Holds node := by
  obtain rfl := eq_of_ofNode? isUpdate
  rw [holdsInFirst, Holds]
  cases leads : call.arguments.head? with
  | none => cases call.child? "arguments" <;> simp
  | some first =>
      obtain ⟨list, found, member⟩ :=
        Node.exists_list_of_mem_arguments (List.mem_of_head? leads)
      simp only [found, Option.some.injEq, exists_eq_left']
      exact climb_iff distinct inside (Node.mem_children_of_child? found) member nodeInside

theorem holding?_eq_some_iff (distinct : tree.SpansDistinct) {call node : Node}
    (inside : call ∈ tree.nodes) (nodeInside : node ∈ tree.nodes) (update : StateUpdate) :
    holding? source node call = some update ↔
      ofNode? source call = some update ∧ update.Holds node := by
  rw [holding?, Option.filter_eq_some_iff]
  exact and_congr_right fun isUpdate => holdsInFirst_iff distinct isUpdate inside nodeInside

end StateUpdate

/-- The node lies in the first argument of some state update. -/
def Node.InUpdate (source : Source) (node : Node) : Prop :=
  ∃ call update, StateUpdate.ofNode? source call = some update ∧ update.Holds node

theorem Node.enclosingUpdate?_isSome_iff (source : Source) (distinct : tree.SpansDistinct)
    {node : Node} (inside : node ∈ tree.nodes) :
    (node.enclosingUpdate? source).isSome = true ↔ node.InUpdate source := by
  rw [enclosingUpdate?, nearest?, List.findSome?_isSome_iff]
  constructor
  · rintro ⟨call, member, found⟩
    obtain ⟨update, holding⟩ := Option.isSome_iff_exists.mp found
    have callInside := Tree.mem_nodes_of_mem_ancestors inside member
    exact ⟨call, update, (StateUpdate.holding?_eq_some_iff distinct callInside inside _).mp holding⟩
  · rintro ⟨call, update, isUpdate, holds⟩
    have member := holds.call_mem_ancestors isUpdate
    have callInside := Tree.mem_nodes_of_mem_ancestors inside member
    refine ⟨call, member, Option.isSome_iff_exists.mpr ⟨update, ?_⟩⟩
    exact (StateUpdate.holding?_eq_some_iff distinct callInside inside _).mpr ⟨isUpdate, holds⟩

end StaleRead
