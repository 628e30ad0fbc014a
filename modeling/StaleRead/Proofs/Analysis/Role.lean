import StaleRead.Analysis.Role
import StaleRead.Proofs.Shape.FirstArgument

/-! # Roles, by what they say

An ancestor plays a role for a read if it is a state update with the read in its first
argument, a named function, or a declarator whose value covers the read. No node is two
of these, so the order in which they are looked for does not matter
(`ReadRole.at?_eq_some_iff`), and the role of a read is that of the nearest ancestor that
plays one (`ReadRole.of?_eq_some_iff`).
-/

namespace StaleRead

variable {source : Source} {tree : Tree}

theorem NamedFunction.kind_of_ofNode? {node : Node} {definition : NamedFunction}
    (isFunction : NamedFunction.ofNode? source node = some definition) :
    node.kind ∈ functionKinds := by
  rw [NamedFunction.ofNode?] at isFunction
  by_contra other
  simp [other] at isFunction

theorem NamedFunction.ofNode?_eq_none_of_kind {node : Node} (other : node.kind ∉ functionKinds) :
    NamedFunction.ofNode? source node = none :=
  Option.eq_none_iff_forall_ne_some.mpr fun _ isFunction => other (kind_of_ofNode? isFunction)

theorem Declarator.kind_of_ofNode? {node : Node} {declarator : Declarator}
    (isDeclarator : Declarator.ofNode? node = some declarator) :
    node.kind = "variable_declarator" := by
  rw [Declarator.ofNode?, Option.ite_none_right_eq_some] at isDeclarator
  exact isDeclarator.1

theorem Declarator.ofNode?_eq_none_of_kind {node : Node}
    (other : node.kind ≠ "variable_declarator") : Declarator.ofNode? node = none :=
  Option.eq_none_iff_forall_ne_some.mpr fun _ isDeclarator => other (kind_of_ofNode? isDeclarator)

theorem Declarator.eq_of_ofNode? {node : Node} {declarator : Declarator}
    (isDeclarator : Declarator.ofNode? node = some declarator) :
    declarator = ⟨node, node.child? "name", node.child? "value"⟩ := by
  rw [Declarator.ofNode?, Option.ite_none_right_eq_some] at isDeclarator
  exact (Option.some.inj isDeclarator.2).symm

theorem Declarator.pattern?_mem_nodes {node pattern : Node} {declarator : Declarator}
    (isDeclarator : Declarator.ofNode? node = some declarator) (inside : node ∈ tree.nodes)
    (hasPattern : declarator.pattern? = some pattern) : pattern ∈ tree.nodes := by
  obtain rfl := Declarator.eq_of_ofNode? isDeclarator
  exact Tree.child?_mem_nodes inside hasPattern

namespace ReadRole

/-- The roles that an ancestor plays for a read. -/
inductive Plays (source : Source) (read ancestor : Node) : ReadRole → Prop
  | update {update : StateUpdate}
      (isUpdate : StateUpdate.ofNode? source ancestor = some update)
      (holds : update.Holds read) : Plays source read ancestor (.update update)
  | function {definition : NamedFunction}
      (isFunction : NamedFunction.ofNode? source ancestor = some definition) :
      Plays source read ancestor (.function definition)
  | binding {declarator : Declarator} {value : Node}
      (isDeclarator : Declarator.ofNode? ancestor = some declarator)
      (hasValue : declarator.value? = some value)
      (covers : value.span.covers read.span = true) :
      Plays source read ancestor (.binding declarator)

/-- The nearest ancestor that plays a role for the read plays this one. -/
def Nearest (source : Source) (read : Node) (role : ReadRole) : Prop :=
  ∃ nearer ancestor farther, read.ancestors = nearer ++ ancestor :: farther ∧
    Plays source read ancestor role ∧ ∀ other ∈ nearer, ∀ role, ¬ Plays source read other role

theorem ofNode?_eq_none_of_kind {node : Node} (other : node.kind ≠ "call_expression") :
    StateUpdate.ofNode? source node = none :=
  Option.eq_none_iff_forall_ne_some.mpr fun _ isUpdate =>
    other (StateUpdate.kind_of_ofNode? isUpdate)

theorem holding?_eq_none_of_kind {read ancestor : Node}
    (other : ancestor.kind ≠ "call_expression") :
    StateUpdate.holding? source read ancestor = none := by
  rw [StateUpdate.holding?, ofNode?_eq_none_of_kind other, Option.filter_none]

/-- A declarator accounts for the reads that its value covers, and for no others. -/
theorem at?_of_declarator {read ancestor : Node} {declarator : Declarator}
    (isDeclarator : Declarator.ofNode? ancestor = some declarator) :
    at? source read ancestor =
      if declarator.value?.any (·.span.covers read.span) then some (.binding declarator)
      else none := by
  have kind := Declarator.kind_of_ofNode? isDeclarator
  have noCall : ancestor.kind ≠ "call_expression" := by
    rw [kind]
    decide
  have noFunction : ancestor.kind ∉ functionKinds := by
    rw [kind]
    decide
  simp only [at?, holding?_eq_none_of_kind noCall,
    NamedFunction.ofNode?_eq_none_of_kind noFunction, isDeclarator]

/-- No node plays two roles, so looking for one after the other finds the one. -/
theorem at?_eq_some_iff (distinct : tree.SpansDistinct) {read ancestor : Node}
    (readInside : read ∈ tree.nodes) (inside : ancestor ∈ tree.nodes) (role : ReadRole) :
    at? source read ancestor = some role ↔ Plays source read ancestor role := by
  constructor
  · intro found
    rw [at?] at found
    split at found
    · rename_i update holding
      obtain rfl := Option.some.inj found
      obtain ⟨isUpdate, holds⟩ :=
        (StateUpdate.holding?_eq_some_iff distinct inside readInside update).mp holding
      exact .update isUpdate holds
    · split at found
      · rename_i definition isFunction
        obtain rfl := Option.some.inj found
        exact .function isFunction
      · split at found
        · rename_i declarator isDeclarator
          rw [Option.ite_none_right_eq_some] at found
          obtain ⟨value, hasValue, covers⟩ := (Option.any_eq_true _ _).mp found.1
          obtain rfl := Option.some.inj found.2
          exact .binding isDeclarator hasValue covers
        · simp at found
  · intro plays
    cases plays with
    | update isUpdate holds =>
        have holding :=
          (StateUpdate.holding?_eq_some_iff distinct inside readInside _).mpr ⟨isUpdate, holds⟩
        simp only [at?, holding]
    | function isFunction =>
        have noCall : ancestor.kind ≠ "call_expression" := by
          intro same
          have kind := NamedFunction.kind_of_ofNode? isFunction
          rw [same] at kind
          exact absurd kind (by decide)
        simp only [at?, holding?_eq_none_of_kind noCall, isFunction]
    | binding isDeclarator hasValue covers =>
        rw [at?_of_declarator isDeclarator, hasValue, Option.any_some, if_pos covers]

/-- The role of a read is the one that the nearest ancestor with a role plays. -/
theorem of?_eq_some_iff (source : Source) (distinct : tree.SpansDistinct) {read : Node}
    (inside : read ∈ tree.nodes) (role : ReadRole) :
    of? source read = some role ↔ Nearest source read role := by
  have ancestorsInside : ∀ ancestor ∈ read.ancestors, ancestor ∈ tree.nodes :=
    fun _ member => Tree.mem_nodes_of_mem_ancestors inside member
  rw [of?, Node.nearest?, List.findSome?_eq_some_iff, Nearest]
  constructor
  · rintro ⟨nearer, ancestor, farther, split, found, none⟩
    rw [split] at ancestorsInside
    refine ⟨nearer, ancestor, farther, split, ?_, fun other member role plays => ?_⟩
    · exact (at?_eq_some_iff distinct inside (ancestorsInside _ (by simp)) role).mp found
    · have otherInside := ancestorsInside other (List.mem_append_left _ member)
      have plain := none other member
      rw [(at?_eq_some_iff distinct inside otherInside role).mpr plays] at plain
      exact Option.some_ne_none _ plain
  · rintro ⟨nearer, ancestor, farther, split, plays, none⟩
    rw [split] at ancestorsInside
    refine ⟨nearer, ancestor, farther, split, ?_, fun other member => ?_⟩
    · exact (at?_eq_some_iff distinct inside (ancestorsInside _ (by simp)) role).mpr plays
    · rw [Option.eq_none_iff_forall_ne_some]
      intro role found
      have otherInside := ancestorsInside other (List.mem_append_left _ member)
      exact none other member role ((at?_eq_some_iff distinct inside otherInside role).mp found)

theorem declarator_of_at? {read ancestor : Node} {declarator : Declarator}
    (found : at? source read ancestor = some (.binding declarator)) :
    Declarator.ofNode? ancestor = some declarator := by
  rw [at?] at found
  split at found
  · cases found
  · split at found
    · cases found
    · split at found
      · rename_i isDeclarator
        rw [Option.ite_none_right_eq_some] at found
        cases found.2
        exact isDeclarator
      · cases found

/-- The pattern of a declarator that accounts for a read is a node of its tree. -/
theorem pattern?_mem_nodes_of_of? {read pattern : Node} {declarator : Declarator}
    (found : of? source read = some (.binding declarator)) (inside : read ∈ tree.nodes)
    (hasPattern : declarator.pattern? = some pattern) : pattern ∈ tree.nodes := by
  obtain ⟨ancestor, member, found⟩ := List.exists_of_findSome?_eq_some found
  exact Declarator.pattern?_mem_nodes (declarator_of_at? found)
    (Tree.mem_nodes_of_mem_ancestors inside member) hasPattern

theorem at?_eq_none_of_kind {read ancestor : Node} (noCall : ancestor.kind ≠ "call_expression")
    (noFunction : ancestor.kind ∉ functionKinds)
    (noDeclarator : ancestor.kind ≠ "variable_declarator") :
    at? source read ancestor = none := by
  simp only [at?, holding?_eq_none_of_kind noCall,
    NamedFunction.ofNode?_eq_none_of_kind noFunction,
    Declarator.ofNode?_eq_none_of_kind noDeclarator]

theorem Nearest.pattern?_mem_nodes {read pattern : Node} {declarator : Declarator}
    (nearest : Nearest source read (.binding declarator)) (inside : read ∈ tree.nodes)
    (hasPattern : declarator.pattern? = some pattern) : pattern ∈ tree.nodes := by
  obtain ⟨nearer, ancestor, farther, split, plays, _⟩ := nearest
  have member : ancestor ∈ read.ancestors := by
    rw [split]
    exact List.mem_append_right _ List.mem_cons_self
  cases plays with
  | binding isDeclarator _ _ =>
      exact Declarator.pattern?_mem_nodes isDeclarator
        (Tree.mem_nodes_of_mem_ancestors inside member) hasPattern

end ReadRole

namespace TakenProperty

/-- The key and the pattern of a property that takes the state are nodes of its tree. -/
theorem mem_nodes_of_state? {property : Node} {taken : TakenProperty}
    (inside : property ∈ tree.nodes) (takes : state? source property = some taken) :
    taken.key ∈ tree.nodes ∧ ∀ pattern, taken.pattern? = some pattern → pattern ∈ tree.nodes := by
  rw [state?] at takes
  split_ifs at takes with shorthand named pair default
  · obtain rfl := Option.some.inj takes
    refine ⟨inside, fun pattern same => ?_⟩
    rwa [← Option.some.inj same]
  · obtain ⟨key, keyFills, rest⟩ := Option.bind_eq_some_iff.mp takes
    rw [Option.ite_none_right_eq_some] at rest
    obtain rfl := Option.some.inj rest.2
    exact ⟨Tree.child?_mem_nodes inside keyFills, fun _ => Tree.child?_mem_nodes inside⟩
  · obtain ⟨left, leftFills, rest⟩ := Option.bind_eq_some_iff.mp takes
    rw [Option.ite_none_right_eq_some] at rest
    obtain rfl := Option.some.inj rest.2
    have leftInside := Tree.child?_mem_nodes inside leftFills
    refine ⟨leftInside, fun pattern same => ?_⟩
    rwa [← Option.some.inj same]

theorem kind_key_of_state? {property : Node} {taken : TakenProperty}
    (takes : state? source property = some taken) :
    taken.key.kind = "shorthand_property_identifier_pattern" ∨
      taken.key.kind ∈ Node.plainNameKinds := by
  rw [state?] at takes
  split_ifs at takes with shorthand named pair default
  · obtain rfl := Option.some.inj takes
    exact Or.inl shorthand
  · obtain ⟨key, _, rest⟩ := Option.bind_eq_some_iff.mp takes
    rw [Option.ite_none_right_eq_some, Node.plainName?, Option.ite_none_right_eq_some] at rest
    obtain rfl := Option.some.inj rest.2
    exact Or.inr rest.1.1
  · obtain ⟨left, _, rest⟩ := Option.bind_eq_some_iff.mp takes
    rw [Option.ite_none_right_eq_some] at rest
    obtain rfl := Option.some.inj rest.2
    exact Or.inl rest.1.1

theorem fromThis?_eq_some_iff {node : Node} {properties : List TakenProperty} :
    fromThis? source node = some properties ↔
      ∃ declarator value pattern, Declarator.ofNode? node = some declarator ∧
        declarator.value? = some value ∧ declarator.pattern? = some pattern ∧
        (value.isThis = true ∧ pattern.kind = "object_pattern") ∧
        pattern.namedChildren.filterMap (state? source) = properties := by
  simp only [fromThis?, Option.bind_eq_bind, Option.bind_eq_some_iff,
    Option.ite_none_right_eq_some, Option.some.injEq, exists_and_left]

theorem kind_of_fromThis? {node : Node} {properties : List TakenProperty}
    (takes : fromThis? source node = some properties) : node.kind = "variable_declarator" := by
  obtain ⟨declarator, _, _, isDeclarator, _⟩ := fromThis?_eq_some_iff.mp takes
  exact Declarator.kind_of_ofNode? isDeclarator

theorem kind_key_of_fromThis? {node : Node} {properties : List TakenProperty}
    {taken : TakenProperty} (takes : fromThis? source node = some properties)
    (member : taken ∈ properties) :
    taken.key.kind = "shorthand_property_identifier_pattern" ∨
      taken.key.kind ∈ Node.plainNameKinds := by
  obtain ⟨_, _, _, _, _, _, _, rfl⟩ := fromThis?_eq_some_iff.mp takes
  obtain ⟨_, _, takesState⟩ := List.mem_filterMap.mp member
  exact kind_key_of_state? takesState

/-- The properties that a declarator takes from the instance are nodes of its tree. -/
theorem mem_nodes_of_fromThis? {node : Node} {properties : List TakenProperty}
    {taken : TakenProperty} (inside : node ∈ tree.nodes)
    (takes : fromThis? source node = some properties) (member : taken ∈ properties) :
    taken.key ∈ tree.nodes ∧ ∀ pattern, taken.pattern? = some pattern → pattern ∈ tree.nodes := by
  obtain ⟨declarator, value, pattern, isDeclarator, _, hasPattern, _, rfl⟩ :=
    fromThis?_eq_some_iff.mp takes
  obtain ⟨property, isNamed, takesState⟩ := List.mem_filterMap.mp member
  have patternInside := Declarator.pattern?_mem_nodes isDeclarator inside hasPattern
  exact mem_nodes_of_state?
    (Tree.child_mem_nodes patternInside (Node.mem_namedChildren.mp isNamed).1) takesState

end TakenProperty

namespace Node

theorem kind_of_readsState {node : Node} (reads : node.readsState source = true) :
    node.kind = "member_expression" := by
  simp only [readsState, isMemberOfThis, Bool.and_eq_true, beq_iff_eq] at reads
  exact reads.1.1.1

theorem outermostOperation_mem_nodes {node : Node} (inside : node ∈ tree.nodes) :
    node.outermostOperation ∈ tree.nodes := by
  obtain ⟨subtree, above⟩ := node
  rw [outermostOperation]
  induction above generalizing subtree with
  | nil => exact inside
  | cons step above ih =>
      simp only [outermostAt]
      split
      · exact ih step.parent (Tree.parent?_mem_nodes inside rfl).1
      · exact inside

end Node

end StaleRead
