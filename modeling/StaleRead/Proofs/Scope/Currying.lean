import StaleRead.Proofs.Scope.Hoisting

/-! # Functions whose body is a function

The variables that hoist to a function are looked for below its body, and functions met on
the way keep their own. The body is where the search starts, so it is never asked whether it
is a function itself. As long as it is not, a function takes the `var` declarations for which
it is the nearest function, and no other. But where one arrow function is the body of another,
the outer one takes those of the inner one and none of its own
(`Node.exists_owedTo_of_mem_hoistedBindings`). It declares them, so a name among its parameters
is resolved to it although the variable is that of the inner function
(`Scopes.declaring_hoisted`).
-/

namespace StaleRead

namespace Node

variable {tree : Tree} {node function body : Node}

/-- The nearest function around a node. -/
def surroundingFunction? (node : Node) : Option Node :=
  node.ancestors.find? (·.kind ∈ functionKinds)

theorem surroundingFunction?_of_parent? {parent : Node} (sits : node.parent? = some parent) :
    node.surroundingFunction? =
      if parent.kind ∈ functionKinds then some parent else parent.surroundingFunction? := by
  rw [surroundingFunction?, ancestors_of_parent? sits, List.find?_cons]
  by_cases isFunction : parent.kind ∈ functionKinds <;> simp [isFunction, surroundingFunction?]

/-- No function stands between a node and the declarations that hoist out of it. -/
theorem surroundingFunction?_of_mem_hoisting {declaration : Node}
    (hoists : declaration ∈ node.hoisting) :
    declaration.surroundingFunction? = node.surroundingFunction? := by
  refine (hoisting_induction hoists
    (motive := fun part => part.surroundingFunction? = node.surroundingFunction?) rfl ?_).1
  intro outer child plain member same
  have sits := parent?_of_mem_children (mem_namedChildren.mp member).1
  rw [surroundingFunction?_of_parent? sits, if_neg plain, same]

theorem within_of_mem_hoisting {declaration : Node} (hoists : declaration ∈ node.hoisting) :
    declaration.Within node := by
  refine (hoisting_induction hoists (motive := fun part => part.Within node) (Or.inl rfl) ?_).1
  intro outer child _ member within
  have sits := parent?_of_mem_children (mem_namedChildren.mp member).1
  exact (within_iff_of_parent? sits).mpr (Or.inr within)

theorem mem_nodes_of_mem_hoisting {declaration : Node} (inside : node ∈ tree.nodes)
    (hoists : declaration ∈ node.hoisting) : declaration ∈ tree.nodes := by
  refine (hoisting_induction hoists inside ?_).1
  intro outer child _ member outerInside
  exact Tree.child_mem_nodes outerInside (mem_namedChildren.mp member).1

/-- Whose variables hoist to a function: its own, unless its body is a function again, and
then the body's. -/
def hoistingOwner (function body : Node) : Node :=
  if body.kind ∈ functionKinds then body else function

/-- A `var` declaration below a body binds the identifier, and the owner is the nearest
function around the declaration. -/
structure OwedTo (tree : Tree) (owner body declaration binding : Node) : Prop where
  inside : declaration ∈ tree.nodes
  kind : declaration.kind = "variable_declaration"
  binds : binding ∈ declaration.declaratorBindings
  below : body ∈ declaration.ancestors
  owned : declaration.surroundingFunction? = some owner

/-- What hoists to a function is declared below its body, and the owner of what hoists there
is the nearest function around the declaration. -/
theorem exists_owedTo_of_mem_hoistedBindings (inside : function ∈ tree.nodes)
    (isFunction : function.kind ∈ functionKinds) (owns : function.child? "body" = some body)
    {binding : Node} (hoisted : binding ∈ body.hoistedBindings) :
    ∃ declaration, OwedTo tree (hoistingOwner function body) body declaration binding := by
  obtain ⟨declaration, collected, binds⟩ := List.mem_flatMap.mp hoisted
  obtain ⟨child, named, hoists⟩ := List.mem_flatMap.mp collected
  have member := (mem_namedChildren.mp named).1
  have childInside := Tree.child_mem_nodes (Tree.child?_mem_nodes inside owns) member
  have childSits := parent?_of_mem_children member
  have bodySits := parent?_of_mem_children (mem_children_of_child? owns)
  refine ⟨declaration, mem_nodes_of_mem_hoisting childInside hoists,
    kind_of_mem_hoisting hoists, binds,
    (within_of_mem_hoisting hoists).mem_ancestors childSits, ?_⟩
  rw [surroundingFunction?_of_mem_hoisting hoists, surroundingFunction?_of_parent? childSits,
    surroundingFunction?_of_parent? bodySits, if_pos isFunction, hoistingOwner, apply_ite some]

/-- The owner of what hoists to a function is the body or a function around the body. -/
theorem hoistingOwner_mem (owns : function.child? "body" = some body) :
    hoistingOwner function body ∈ body :: body.ancestors := by
  have sits := parent?_of_mem_children (mem_children_of_child? owns)
  rw [ancestors_of_parent? sits, hoistingOwner]
  split
  · exact List.mem_cons_self
  · exact List.mem_cons_of_mem _ List.mem_cons_self

namespace OwedTo

variable {declaration binding : Node}

/-- No function stands between a declaration and the body that it is below. -/
theorem kind_not_mem_of_between (owns : function.child? "body" = some body)
    (owed : OwedTo tree (hoistingOwner function body) body declaration binding)
    {between farther : List Node} (split : declaration.ancestors = between ++ body :: farther) :
    ∀ ancestor ∈ between, ancestor.kind ∉ functionKinds := by
  intro ancestor member isFunction
  have owned := owed.owned
  rw [surroundingFunction?, split, List.find?_append] at owned
  cases found : between.find? (·.kind ∈ functionKinds) with
  | none => simpa [isFunction] using List.find?_eq_none.mp found ancestor member
  | some first =>
      -- It would be the owner, which is the body or around it, and no ancestor comes twice.
      rw [found] at owned
      obtain rfl : first = hoistingOwner function body := Option.some.inj owned
      have once := declaration.nodup_ancestors
      rw [split, ← ancestors_of_ancestors_eq_append split] at once
      exact List.disjoint_of_nodup_append once (List.mem_of_find?_eq_some found)
        (hoistingOwner_mem owns)

theorem mem_hoistedBindings (tokens : tree.TokensAreLeaves)
    (owns : function.child? "body" = some body)
    (owed : OwedTo tree (hoistingOwner function body) body declaration binding) :
    binding ∈ body.hoistedBindings := by
  obtain ⟨between, farther, split⟩ := List.append_of_mem owed.below
  exact mem_hoistedBindings_of_between tokens owed.inside owed.kind owed.binds split
    (owed.kind_not_mem_of_between owns split)

end OwedTo

end Node

/-- **Whose variables a function declares.** To a function hoists what the `var` declarations
below its body bind for which it is the nearest function, and nothing from a function nested
in the body; but if the body is itself a function, all that hoists to the outer function is
the inner one's. After any questions, a name of that spelling is resolved to the function, its
parameters included, unless a nearer scope declares the name. -/
theorem Scopes.declaring_hoisted (source : Source) {tree : Tree} {function body : Node}
    (inside : function ∈ tree.nodes) (isFunction : function.kind ∈ functionKinds)
    (owns : function.child? "body" = some body) :
    (∀ binding ∈ body.hoistedBindings, ∃ declaration,
      Node.OwedTo tree (Node.hoistingOwner function body) body declaration binding) ∧
    (tree.TokensAreLeaves → ∀ declaration binding,
      Node.OwedTo tree (Node.hoistingOwner function body) body declaration binding →
        binding ∈ body.hoistedBindings) ∧
    (tree.SpansDistinct → ∀ questions : List Question,
      (∀ question ∈ questions, question.node ∈ tree.nodes) →
        ∀ binding ∈ body.hoistedBindings, ∀ use ∈ tree.nodes,
          use.text source = binding.text source →
            ∀ nearer farther, use.scopes = nearer ++ function :: farther →
              (((after source tree questions).declaring source use).1 = function.span ↔
                ∀ scope ∈ nearer, use.text source ∉ scope.declaredNames source)) := by
  refine ⟨?_, ?_, ?_⟩
  · intro binding hoisted
    exact Node.exists_owedTo_of_mem_hoistedBindings inside isFunction owns hoisted
  · intro tokens declaration binding owed
    exact owed.mem_hoistedBindings tokens owns
  · intro distinct questions asked binding hoisted use useInside text nearer farther split
    apply declaring_eq_span_iff source distinct asked useInside split
    rw [text]
    exact Node.mem_declaredNames_of_mem (Node.mem_declarations_of_hoisted isFunction owns hoisted)

/-- An arrow function with an arrow function as its body. The parameter of the outer one has
the program's `s` as its default, and the inner one has a variable `s` of its own. -/
def curriedSource : Source :=
  .ofText "const s=1,f=(a=s)=>()=>{var s}"

/-- The tree of the functions, down to the nodes that matter. -/
def curriedTree : Tree :=
  ⟨"program", true, none, 0, 30, [
    ⟨"lexical_declaration", true, none, 0, 30, [
      ⟨"variable_declarator", true, none, 6, 9, [
        ⟨"identifier", true, some "name", 6, 7, []⟩,
        ⟨"number", true, some "value", 8, 9, []⟩]⟩,
      ⟨"variable_declarator", true, none, 10, 30, [
        ⟨"identifier", true, some "name", 10, 11, []⟩,
        ⟨"arrow_function", true, some "value", 12, 30, [
          ⟨"formal_parameters", true, some "parameters", 12, 17, [
            ⟨"assignment_pattern", true, none, 13, 16, [
              ⟨"identifier", true, some "left", 13, 14, []⟩,
              ⟨"identifier", true, some "right", 15, 16, []⟩]⟩]⟩,
          ⟨"arrow_function", true, some "body", 19, 30, [
            ⟨"formal_parameters", true, some "parameters", 19, 21, []⟩,
            ⟨"statement_block", true, some "body", 23, 30, [
              ⟨"variable_declaration", true, none, 24, 29, [
                ⟨"variable_declarator", true, none, 28, 29, [
                  ⟨"identifier", true, some "name", 28, 29, []⟩]⟩]⟩]⟩]⟩]⟩]⟩]⟩]⟩

theorem declaring_curriedTree :
    (curriedTree.nodes[7] ∈ curriedTree.nodes ∧ curriedTree.nodes[7].kind ∈ functionKinds ∧
      curriedTree.nodes[7].child? "body" = some curriedTree.nodes[12]) ∧
    curriedTree.nodes[17] ∈ curriedTree.nodes[12].hoistedBindings ∧
    (∃ declaration, Node.OwedTo curriedTree curriedTree.nodes[12] curriedTree.nodes[12]
      declaration curriedTree.nodes[17]) ∧
    ((Scopes.after curriedSource curriedTree
        [.declaring curriedTree.nodes[17]]).declaring curriedSource
          curriedTree.nodes[11]).1 = ⟨12, 30, "arrow_function"⟩ := by
  have inside : curriedTree.nodes[7] ∈ curriedTree.nodes := List.getElem_mem _
  have isFunction : curriedTree.nodes[7].kind ∈ functionKinds := by decide
  have owns : curriedTree.nodes[7].child? "body" = some curriedTree.nodes[12] := rfl
  have distinct : curriedTree.SpansDistinct := by decide
  have asked : ∀ question ∈ [Scopes.Question.declaring curriedTree.nodes[17]],
      question.node ∈ curriedTree.nodes := by
    intro question member
    rw [List.mem_singleton.mp member]
    exact List.getElem_mem _
  obtain ⟨owed, -, resolved⟩ :=
    Scopes.declaring_hoisted curriedSource inside isFunction owns
  have hoists : curriedTree.nodes[17] ∈ curriedTree.nodes[12].hoistedBindings :=
    List.mem_singleton_self _
  refine ⟨⟨inside, isFunction, owns⟩, hoists, owed _ hoists, ?_⟩
  have split : curriedTree.nodes[11].scopes =
      [] ++ curriedTree.nodes[7] :: [curriedTree.nodes[0]] := rfl
  apply (resolved distinct _ asked _ hoists _ (List.getElem_mem _) (by decide) _ _ split).mpr
  exact fun scope member => (List.not_mem_nil member).elim

end StaleRead
