import StaleRead.Tree.Node

/-! # Binding patterns

A declaration binds the identifiers at the leaves of its pattern. Object, array and
rest patterns bind what their named parts bind; a renamed property binds through its
value, a default through its left side, and a typed parameter through its pattern.
Property keys, default values and type annotations bind nothing.
-/

namespace StaleRead

/-- How a node of a pattern takes part in binding. -/
inductive PatternForm where
  /-- The node is a bound identifier. -/
  | leaf
  /-- The node binds what the child in one field binds. -/
  | through (field : String)
  /-- The node binds what its named children bind. -/
  | each
  /-- The node binds nothing. -/
  | inert
deriving DecidableEq

/-- The form of a kind of node in a pattern. -/
def PatternForm.ofKind (kind : String) : PatternForm :=
  if kind = "identifier" ∨ kind = "shorthand_property_identifier_pattern" then
    .leaf
  else if kind = "pair_pattern" then
    .through "value"
  else if kind = "object_assignment_pattern" ∨ kind = "assignment_pattern" then
    .through "left"
  else if kind = "object_pattern" ∨ kind = "array_pattern" ∨ kind = "rest_pattern" then
    .each
  else if kind = "required_parameter" ∨ kind = "optional_parameter" then
    .through "pattern"
  else
    .inert

namespace Node

mutual

/-- The identifiers bound by a pattern at the given steps. -/
def bindingsAt : Tree → List Step → List Node
  | ⟨kind, named, field, start, stop, children⟩, above =>
      let tree : Tree := ⟨kind, named, field, start, stop, children⟩
      match PatternForm.ofKind kind with
      | .leaf => [⟨tree, above⟩]
      | .through wanted => bindingsThrough wanted children tree above 0
      | .each => bindingsEach children tree above 0
      | .inert => []

/-- The identifiers bound by the first of some siblings that fills a field. -/
def bindingsThrough (wanted : String) : List Tree → Tree → List Step → Nat → List Node
  | [], _, _, _ => []
  | tree :: rest, parent, above, slot =>
      if tree.field = some wanted then bindingsAt tree (⟨parent, slot⟩ :: above)
      else bindingsThrough wanted rest parent above (slot + 1)

/-- The identifiers bound by the named ones of some siblings. -/
def bindingsEach : List Tree → Tree → List Step → Nat → List Node
  | [], _, _, _ => []
  | tree :: rest, parent, above, slot =>
      (if tree.named then bindingsAt tree (⟨parent, slot⟩ :: above) else []) ++
        bindingsEach rest parent above (slot + 1)

end

/-- The identifiers that a pattern binds, from left to right. -/
def bindings (pattern : Node) : List Node :=
  bindingsAt pattern.tree pattern.above

theorem bindingsThrough_eq (wanted : String) (trees : List Tree) (parent : Tree)
    (above : List Step) (slot : Nat) :
    bindingsThrough wanted trees parent above slot =
      match (siblings parent above slot trees).find? (·.field? = some wanted) with
      | none => []
      | some child => child.bindings := by
  induction trees generalizing slot with
  | nil => simp [bindingsThrough, siblings]
  | cons tree rest ih =>
      rw [bindingsThrough, siblings, List.find?_cons, ih]
      by_cases fills : tree.field = some wanted <;> simp [field?, fills, bindings]

theorem bindingsEach_eq (trees : List Tree) (parent : Tree) (above : List Step) (slot : Nat) :
    bindingsEach trees parent above slot =
      ((siblings parent above slot trees).filter isNamed).flatMap bindings := by
  induction trees generalizing slot with
  | nil => simp [bindingsEach, siblings]
  | cons tree rest ih =>
      rw [bindingsEach, siblings, List.filter_cons, ih]
      by_cases named : tree.named <;> simp [isNamed, named, bindings]

/-- A pattern binds by its form: itself, through one field, through each named part,
or nothing. -/
theorem bindings_eq (pattern : Node) :
    pattern.bindings =
      match PatternForm.ofKind pattern.kind with
      | .leaf => [pattern]
      | .through wanted =>
          match pattern.child? wanted with
          | none => []
          | some child => child.bindings
      | .each => pattern.namedChildren.flatMap bindings
      | .inert => [] := by
  obtain ⟨⟨kind, named, field, start, stop, children⟩, above⟩ := pattern
  rw [bindings, bindingsAt]
  simp only [Node.kind, bindingsThrough_eq, bindingsEach_eq]
  rfl

end Node

/-- A variable declarator: a pattern and the value that it is bound to. -/
structure Declarator where
  node : Node
  pattern? : Option Node
  value? : Option Node

/-- The declarator that a node is, if it is one. -/
def Declarator.ofNode? (node : Node) : Option Declarator :=
  if node.kind = "variable_declarator" then
    some ⟨node, node.child? "name", node.child? "value"⟩
  else
    none

end StaleRead
