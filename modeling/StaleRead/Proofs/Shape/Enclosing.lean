import StaleRead.Proofs.Shape.FirstArgument

/-! # The update around a node

The first argument of a call is the first child of its argument list that is named and no
comment (`Node.FirstArgument`). Every other node of the tree is outside of the call, the call
itself, or in one of its other parts (`Node.BesideFirstArgument`). The climb of an update tells
these places apart, and the update around a node is the innermost one that has the node in its
first argument (`Node.enclosingUpdate?_innermost`). An update inside of that one which has the
node in another place is passed over.
-/

namespace StaleRead

variable {source : Source} {tree : Tree}

namespace Node

/-- Punctuation and comments in an argument list are no arguments. -/
def IsArgument (node : Node) : Prop :=
  node.isNamed = true ∧ node.kind ≠ "comment"

/-- The first argument of a call: what stands before it in the argument list is no argument. -/
def FirstArgument (call argument : Node) : Prop :=
  ∃ list, call.child? "arguments" = some list ∧ argument.IsArgument ∧
    ∃ before behind, list.children = before ++ argument :: behind ∧
      ∀ other ∈ before, ¬ other.IsArgument

/-- The node is the first argument of the call or lies below it. -/
def InFirstArgument (call node : Node) : Prop :=
  ∃ first, call.FirstArgument first ∧ node.Within first

/-- The places of a tree that are not in the first argument of a call. -/
inductive BesideFirstArgument (call : Node) : Node → Prop
  | outside {node : Node} (apart : ¬ node.Within call) : BesideFirstArgument call node
  | call : BesideFirstArgument call call
  | callee {callee node : Node} (invoked : call.child? "function" = some callee)
      (within : node.Within callee) : BesideFirstArgument call node
  /-- A part of the call that is neither the callee nor the argument list. -/
  | part {part node : Node} (member : part ∈ call.children)
      (noCallee : call.child? "function" ≠ some part)
      (noList : call.child? "arguments" ≠ some part)
      (within : node.Within part) : BesideFirstArgument call node
  | list {list : Node} (found : call.child? "arguments" = some list) :
      BesideFirstArgument call list
  | later {list argument node : Node} (found : call.child? "arguments" = some list)
      (member : argument ∈ list.children) (isArgument : argument.IsArgument)
      (later : ¬ call.FirstArgument argument)
      (within : node.Within argument) : BesideFirstArgument call node
  /-- Punctuation or a comment in the argument list. -/
  | trivia {list trivia node : Node} (found : call.child? "arguments" = some list)
      (member : trivia ∈ list.children) (noArgument : ¬ trivia.IsArgument)
      (within : node.Within trivia) : BesideFirstArgument call node

instance (node : Node) : Decidable node.IsArgument :=
  inferInstanceAs (Decidable (_ ∧ _))

theorem arguments_eq (call : Node) :
    call.arguments = match call.child? "arguments" with
      | none => []
      | some list => list.children.filter fun child => child.IsArgument := by
  rw [arguments]
  cases call.child? "arguments" with
  | none => rfl
  | some list =>
      simp only [namedChildren, List.filter_filter]
      refine List.filter_congr fun child _ => ?_
      rw [Bool.eq_iff_iff, decide_eq_true_iff]
      simp [IsArgument, and_comm]

theorem head?_arguments_eq_some_iff {call argument : Node} :
    call.arguments.head? = some argument ↔ call.FirstArgument argument := by
  rw [arguments_eq, FirstArgument]
  cases call.child? "arguments" with
  | none => simp
  | some list => simp [List.head?_filter, List.find?_eq_some_iff_append]

theorem not_firstArgument_of_head? {call first other : Node}
    (leads : call.arguments.head? = some first) (apart : first.span ≠ other.span) :
    ¬ call.FirstArgument other := by
  intro isFirst
  have same := leads.symm.trans (head?_arguments_eq_some_iff.mpr isFirst)
  exact apart (congrArg span (Option.some.inj same))

theorem FirstArgument.exists_list {call argument : Node} (first : call.FirstArgument argument) :
    ∃ list, call.child? "arguments" = some list ∧ argument ∈ list.children := by
  obtain ⟨list, found, -, before, behind, split, -⟩ := first
  exact ⟨list, found, split ▸ List.mem_append_right _ List.mem_cons_self⟩

theorem FirstArgument.argument {call first : Node} (isFirst : call.FirstArgument first) :
    first.IsArgument := by
  obtain ⟨_, _, isArgument, _⟩ := isFirst
  exact isArgument

theorem BesideFirstArgument.not_inFirstArgument {call node : Node}
    (beside : call.BesideFirstArgument node) : ¬ call.InFirstArgument node := by
  rintro ⟨first, isFirst, within⟩
  obtain ⟨list, found, sits⟩ := isFirst.exists_list
  have listSits := mem_children_of_child? found
  have listDepth := depth_of_parent? (parent?_of_mem_children listSits)
  have firstDepth := depth_of_parent? (parent?_of_mem_children sits)
  have belowList : node.Within list :=
    Or.inr (within.mem_ancestors (parent?_of_mem_children sits))
  -- The call and the list are too near to the root. The other places lie below another child of
  -- the call, or of the list, than the first argument does.
  cases beside with
  | outside apart =>
      exact apart (Or.inr (belowList.mem_ancestors (parent?_of_mem_children listSits)))
  | call =>
      have bound := within.depth_le
      omega
  | callee invoked below =>
      obtain rfl := below.eq_of_mem_children belowList (mem_children_of_child? invoked) listSits
      have asCallee := field?_of_child? invoked
      have asList := field?_of_child? found
      exact absurd (asCallee.symm.trans asList) (by decide)
  | part member noCallee noList below =>
      obtain rfl := below.eq_of_mem_children belowList member listSits
      exact noList found
  | list other =>
      obtain rfl := Option.some.inj (other.symm.trans found)
      have bound := within.depth_le
      omega
  | later other member isArgument later below =>
      obtain rfl := Option.some.inj (other.symm.trans found)
      obtain rfl := below.eq_of_mem_children within member sits
      exact later isFirst
  | trivia other member noArgument below =>
      obtain rfl := Option.some.inj (other.symm.trans found)
      obtain rfl := below.eq_of_mem_children within member sits
      exact noArgument isFirst.argument

/-- A node of the tree that is not in the first argument of a call is in one of the other
places. -/
theorem not_inFirstArgument_iff {call node : Node} (inside : node ∈ tree.nodes) :
    ¬ call.InFirstArgument node ↔ call.BesideFirstArgument node := by
  refine ⟨fun elsewhere => ?_, BesideFirstArgument.not_inFirstArgument⟩
  by_cases below : node.Within call
  · rcases (Tree.within_iff_children inside).mp below with rfl | ⟨part, member, within⟩
    · exact .call
    · by_cases isCallee : call.child? "function" = some part
      · exact .callee isCallee within
      · by_cases isList : call.child? "arguments" = some part
        · rcases (Tree.within_iff_children inside).mp within with rfl | ⟨child, sits, within⟩
          · exact .list isList
          · by_cases isArgument : child.IsArgument
            · have notFirst : ¬ call.FirstArgument child :=
                fun first => elsewhere ⟨child, first, within⟩
              exact .later isList sits isArgument notFirst within
            · exact .trivia isList sits isArgument within
        · exact .part member isCallee isList within
  · exact .outside below

end Node

namespace StateUpdate

theorem holds_iff_inFirstArgument {call node : Node} {update : StateUpdate}
    (isUpdate : ofNode? source call = some update) :
    update.Holds node ↔ call.InFirstArgument node := by
  obtain rfl := eq_of_ofNode? isUpdate
  simp only [Holds, Node.InFirstArgument, Node.head?_arguments_eq_some_iff]

theorem holding?_eq_some_iff_inFirstArgument (distinct : tree.SpansDistinct) {call node : Node}
    (inside : call ∈ tree.nodes) (nodeInside : node ∈ tree.nodes) (update : StateUpdate) :
    holding? source node call = some update ↔
      ofNode? source call = some update ∧ call.InFirstArgument node := by
  rw [holding?_eq_some_iff distinct inside nodeInside]
  exact and_congr_right holds_iff_inFirstArgument

theorem holding?_eq_none_iff (distinct : tree.SpansDistinct) {call node : Node}
    (inside : call ∈ tree.nodes) (nodeInside : node ∈ tree.nodes) :
    holding? source node call = none ↔
      ((ofNode? source call).isSome → ¬ call.InFirstArgument node) := by
  simp only [Option.eq_none_iff_forall_ne_some, ne_eq, Option.isSome_iff_exists,
    holding?_eq_some_iff_inFirstArgument distinct inside nodeInside, not_and, forall_exists_index]

/-- The nearest of the ancestors of a node that is an update with the node in its first
argument. -/
structure Encloses (source : Source) (node : Node) (update : StateUpdate) : Prop where
  isUpdate : ofNode? source update.call = some update
  holds : update.call.InFirstArgument node
  innermost : ∃ nearer farther, node.ancestors = nearer ++ update.call :: farther ∧
    ∀ other ∈ nearer, (ofNode? source other).isSome → ¬ other.InFirstArgument node

end StateUpdate

open StateUpdate in
/-- **What is in the first argument of an update is settled by the tree.** Where spans are
distinct, the climb from a node succeeds for an update exactly if the call has a first argument
that is the node or an ancestor of it, however many calls and updates stand between, and it fails
exactly in the other places of the tree. So the update around a node is the innermost ancestor
that has the node in its first argument, and there is none exactly if no ancestor has. -/
theorem Node.enclosingUpdate?_innermost (source : Source) (distinct : tree.SpansDistinct) :
    (∀ call ∈ tree.nodes, ∀ update, ofNode? source call = some update → ∀ node ∈ tree.nodes,
      (update.holdsInFirst node = true ↔ call.InFirstArgument node) ∧
      (update.holdsInFirst node = false ↔ call.BesideFirstArgument node)) ∧
    ∀ node ∈ tree.nodes,
      (∀ update, node.enclosingUpdate? source = some update ↔ Encloses source node update) ∧
      (node.enclosingUpdate? source = none ↔ ∀ call ∈ node.ancestors,
        (ofNode? source call).isSome → ¬ call.InFirstArgument node) := by
  refine ⟨fun call inside update isUpdate node nodeInside => ?_, fun node inside => ?_⟩
  · have decides : update.holdsInFirst node = true ↔ call.InFirstArgument node :=
      (holdsInFirst_iff distinct isUpdate inside nodeInside).trans
        (holds_iff_inFirstArgument isUpdate)
    refine ⟨decides, ?_⟩
    rw [← Bool.not_eq_true, decides, not_inFirstArgument_iff nodeInside]
  · have ancestorInside : ∀ ancestor ∈ node.ancestors, ancestor ∈ tree.nodes :=
      fun _ member => Tree.mem_nodes_of_mem_ancestors inside member
    constructor
    · intro update
      rw [enclosingUpdate?, nearest?, List.findSome?_eq_some_iff]
      constructor
      · rintro ⟨nearer, call, farther, split, found, passed⟩
        rw [split] at ancestorInside
        obtain ⟨isUpdate, holds⟩ := (holding?_eq_some_iff_inFirstArgument distinct
          (ancestorInside call (by simp)) inside update).mp found
        obtain rfl : update.call = call := by rw [eq_of_ofNode? isUpdate]
        refine ⟨isUpdate, holds, nearer, farther, split, fun other member => ?_⟩
        exact (holding?_eq_none_iff distinct
          (ancestorInside other (List.mem_append_left _ member)) inside).mp (passed other member)
      · rintro ⟨isUpdate, holds, nearer, farther, split, passed⟩
        rw [split] at ancestorInside
        refine ⟨nearer, update.call, farther, split, ?_, fun other member => ?_⟩
        · exact (holding?_eq_some_iff_inFirstArgument distinct
            (ancestorInside update.call (by simp)) inside update).mpr ⟨isUpdate, holds⟩
        · exact (holding?_eq_none_iff distinct
            (ancestorInside other (List.mem_append_left _ member)) inside).mpr (passed other member)
    · rw [enclosingUpdate?, nearest?, List.findSome?_eq_none_iff]
      exact forall₂_congr fun ancestor member =>
        holding?_eq_none_iff distinct (ancestorInside ancestor member) inside

/-- An update inside the first argument of another one. -/
def nestedUpdatesSource : Source :=
  .ofText "this.setState(f(this.setState(a,b)),c)"

/-- The tree of the two updates. -/
def nestedUpdatesTree : Tree :=
  ⟨"program", true, none, 0, 38, [
    ⟨"call_expression", true, none, 0, 38, [
      ⟨"member_expression", true, some "function", 0, 13, [
        ⟨"this", true, some "object", 0, 4, []⟩,
        ⟨"property_identifier", true, some "property", 5, 13, []⟩]⟩,
      ⟨"arguments", true, some "arguments", 13, 38, [
        ⟨"(", false, none, 13, 14, []⟩,
        ⟨"call_expression", true, none, 14, 35, [
          ⟨"identifier", true, some "function", 14, 15, []⟩,
          ⟨"arguments", true, some "arguments", 15, 35, [
            ⟨"call_expression", true, none, 16, 34, [
              ⟨"member_expression", true, some "function", 16, 29, [
                ⟨"this", true, some "object", 16, 20, []⟩,
                ⟨"property_identifier", true, some "property", 21, 29, []⟩]⟩,
              ⟨"arguments", true, some "arguments", 29, 34, [
                ⟨"(", false, none, 29, 30, []⟩,
                ⟨"identifier", true, none, 30, 31, []⟩,
                ⟨"identifier", true, none, 32, 33, []⟩]⟩]⟩]⟩]⟩,
        ⟨"identifier", true, none, 36, 37, []⟩]⟩]⟩]⟩

/-- The first argument of the inner update is enclosed by the inner update, its second argument by
the outer one, and the second argument of the outer update by none. -/
theorem enclosingUpdate?_nestedUpdatesTree :
    let nodes := nestedUpdatesTree.nodes
    let outer : StateUpdate := ⟨nodes[1], some nodes[5], some nodes[7]⟩
    let inner : StateUpdate := ⟨nodes[10], some nodes[14], some nodes[16]⟩
    nestedUpdatesTree.SpansDistinct ∧
      nodes[16].enclosingUpdate? nestedUpdatesSource = some inner ∧
      (nodes[17].enclosingUpdate? nestedUpdatesSource = some outer ∧
        inner.holdsInFirst nodes[17] = false) ∧
      nodes[18].enclosingUpdate? nestedUpdatesSource = none := by
  intro nodes outer inner
  have distinct : nestedUpdatesTree.SpansDistinct := by decide
  obtain ⟨holds, encloses⟩ := Node.enclosingUpdate?_innermost nestedUpdatesSource distinct
  have innerIs : StateUpdate.ofNode? nestedUpdatesSource nodes[10] = some inner := rfl
  have outerIs : StateUpdate.ofNode? nestedUpdatesSource nodes[1] = some outer := rfl
  have innerFirst : nodes[10].FirstArgument nodes[16] :=
    ⟨nodes[14], rfl, ⟨rfl, by decide⟩, [nodes[15]], _, rfl, by decide⟩
  have outerFirst : nodes[1].FirstArgument nodes[7] :=
    ⟨nodes[5], rfl, ⟨rfl, by decide⟩, [nodes[6]], _, rfl, by decide⟩
  have innerLeads : nodes[10].arguments.head? = some nodes[16] := rfl
  have outerLeads : nodes[1].arguments.head? = some nodes[7] := rfl
  have innerSecond : nodes[17] ∈ nodes[14].children := .tail _ (.tail _ (.head _))
  have outerSecond : nodes[18] ∈ nodes[5].children := .tail _ (.tail _ (.head _))
  have besideInner : nodes[10].BesideFirstArgument nodes[17] :=
    .later rfl innerSecond ⟨rfl, by decide⟩
      (Node.not_firstArgument_of_head? innerLeads (by decide)) (Or.inl rfl)
  have besideOuter : nodes[1].BesideFirstArgument nodes[18] :=
    .later rfl outerSecond ⟨rfl, by decide⟩
      (Node.not_firstArgument_of_head? outerLeads (by decide)) (Or.inl rfl)
  refine ⟨distinct, ?_, ⟨?_, ?_⟩, ?_⟩
  · refine ((encloses nodes[16] (List.getElem_mem _)).1 inner).mpr
      ⟨innerIs, ⟨_, innerFirst, Or.inl rfl⟩, [nodes[14]], nodes[10].ancestors, rfl, ?_⟩
    exact List.forall_mem_singleton.mpr nofun
  · have within : nodes[17].Within nodes[7] :=
      Or.inr (.tail _ (.tail _ (.tail _ (.head _))))
    refine ((encloses nodes[17] (List.getElem_mem _)).1 outer).mpr
      ⟨outerIs, ⟨_, outerFirst, within⟩, [nodes[14], nodes[10], nodes[9], nodes[7], nodes[5]],
        nodes[1].ancestors, rfl, ?_⟩
    simp only [List.forall_mem_cons]
    exact ⟨nofun, fun _ => besideInner.not_inFirstArgument, nofun, nofun, nofun,
      List.forall_mem_nil _⟩
  · exact ((holds nodes[10] (List.getElem_mem _) inner innerIs nodes[17]
      (List.getElem_mem _)).2).mpr besideInner
  · refine (encloses nodes[18] (List.getElem_mem _)).2.mpr ?_
    have above : nodes[18].ancestors = [nodes[5], nodes[1], nodes[0]] := rfl
    rw [above]
    simp only [List.forall_mem_cons]
    exact ⟨nofun, fun _ => besideOuter.not_inFirstArgument, nofun, List.forall_mem_nil _⟩

end StaleRead
