import StaleRead.Analysis.Role
import StaleRead.Component
import StaleRead.Proofs.Definedness.Shape
import StaleRead.Proofs.Text.Pieces

/-! # What surrounds a node step by step

The strict forms of the role that an ancestor has for a read, of the positions in which an
identifier stands for an object, and of the component around a node. They climb from a node that
is there to parents that need not be, up to the root or to an answer.
-/

namespace StaleRead.Strict

variable (source : Source)

/-! ## Roles and positions -/

/-- The role that an ancestor has for a read. -/
def roleAt? (read ancestor : Node) : Strict (Option ReadRole) := do
  let update? ← holding? source read ancestor
  if update?.isSome then return some (.update (← need update?))
  let definition? ← namedFunction? source ancestor
  if definition?.isSome then return some (.function (← need definition?))
  let declarator? := Declarator.ofNode? ancestor
  if declarator?.isNone then return none
  let declarator ← need declarator?
  if declarator.value?.isNone then return none
  if (← need declarator.value?).span.covers read.span then return some (.binding declarator)
  return none

@[simp] theorem roleAt?_eq (read ancestor : Node) :
    roleAt? source read ancestor = pure (ReadRole.at? source read ancestor) := by
  rw [roleAt?, ReadRole.at?, holding?_eq, pure_bind]
  cases StateUpdate.holding? source read ancestor with
  | some update => rfl
  | none =>
      rw [namedFunction?_eq, pure_bind]
      cases NamedFunction.ofNode? source ancestor with
      | some definition => rfl
      | none =>
          cases Declarator.ofNode? ancestor with
          | none => rfl
          | some declarator => cases value : declarator.value? <;> simp [value, pure_ite]

/-- The role of the nearest ancestor that has one for a read. -/
def role? (read : Node) : Strict (Option ReadRole) :=
  nearest? read (roleAt? source read)

@[simp] theorem role?_eq (read : Node) : role? source read = pure (ReadRole.of? source read) :=
  nearest?_eq (roleAt?_eq source read) read

/-- The key and the bound pattern of a property that takes the state. Both are absent for another
property, and the pattern may be absent for this one. -/
def stateProperty (property : Node) : Strict (Option Node × Option Node) := do
  if property.kind == "shorthand_property_identifier_pattern" then
    if property.text source == "state" then return (some property, some property)
    return (none, none)
  if property.kind == "pair_pattern" then
    let key? := property.child? "key"
    if (← plainName? source key?) == some "state" then return (key?, property.child? "value")
    return (none, none)
  if property.kind == "object_assignment_pattern" then
    let left? := property.child? "left"
    if left?.isNone then return (none, none)
    let left ← need left?
    if left.kind == "shorthand_property_identifier_pattern" && left.text source == "state" then
      return (some left, some left)
  return (none, none)

@[simp] theorem stateProperty_eq (property : Node) :
    stateProperty source property =
      pure ((TakenProperty.state? source property).map (·.key),
        (TakenProperty.state? source property).bind (·.pattern?)) := by
  rw [stateProperty, TakenProperty.state?]
  by_cases shorthand : property.kind = "shorthand_property_identifier_pattern"
  · by_cases state : property.text source = "state" <;> simp [shorthand, state]
  by_cases pair : property.kind = "pair_pattern"
  · cases property.child? "key" with
    | none => simp [pair]
    | some key => by_cases state : key.plainName? source = some "state" <;> simp [pair, state]
  by_cases defaulted : property.kind = "object_assignment_pattern"
  · cases property.child? "left" with
    | none => simp [defaulted]
    | some left =>
        by_cases state : left.kind = "shorthand_property_identifier_pattern" ∧
          left.text source = "state" <;> simp [defaulted, state]
  simp [shorthand, pair, defaulted]

/-- Whether a node is an operand of a binary expression. -/
def isOperand (node : Node) : Strict Bool := do
  if node.parent?.isNone then return false
  return (← need node.parent?).kind == "binary_expression"

/-- The outermost of the binary expressions that the subtree at some steps is an operand of, one
inside the other, or the subtree itself. The climb goes on to a parent that was found before. -/
def outermostAt (tree : Tree) : List Step → Strict Node
  | [] => do
      if ← isOperand ⟨tree, []⟩ then return ← need none
      return ⟨tree, []⟩
  | step :: above => do
      if ← isOperand ⟨tree, step :: above⟩ then return ← outermostAt step.parent above
      return ⟨tree, step :: above⟩

/-- The whole binary expression that a node is an operand of, or the node itself. -/
def outermostOperation (node : Node) : Strict Node :=
  outermostAt node.tree node.above

@[simp] theorem outermostOperation_eq (node : Node) :
    outermostOperation node = pure node.outermostOperation := by
  obtain ⟨tree, above⟩ := node
  rw [outermostOperation, Node.outermostOperation]
  induction above generalizing tree with
  | nil => rfl
  | cons step above ih =>
      have parent : isOperand ⟨tree, step :: above⟩ =
          pure (step.parent.kind == "binary_expression") := rfl
      rw [outermostAt, Node.outermostAt, parent, ih]
      simp [pure_ite]

/-- Whether a node stands for an object. -/
def standsForObject (node : Node) : Strict Bool := do
  if node.kind == "shorthand_property_identifier" then return true
  if node.parent?.isNone then return false
  let parent ← need node.parent?
  if parent.kind == "pair" then return ← sameNode (parent.child? "value") (some node)
  if parent.kind == "member_expression" then
    return ← sameNode (parent.child? "object") (some node)
  return false

@[simp] theorem standsForObject_eq (node : Node) :
    standsForObject node = pure node.standsForObject := by
  rw [standsForObject, Node.standsForObject]
  by_cases shorthand : node.kind = "shorthand_property_identifier"
  · simp [shorthand]
  rw [beq_false_of_ne shorthand, Bool.false_or]
  cases node.parent? with
  | none => rfl
  | some parent =>
      by_cases pair : parent.kind = "pair"
      · simp [pair]
      by_cases member : parent.kind = "member_expression"
      · simp [member]
      · simp [pair, member, beq_false_of_ne pair, beq_false_of_ne member]

/-! ## Components -/

variable (conventions : Conventions)

/-- The name of a base class, without type arguments: the first piece of its text. -/
def baseName (superclass : Node) : Strict String := do
  let piece ← first (Text.Blank.pieces '<' (superclass.text source).toList)
  return String.ofList (Text.Blank.trimChars piece)

@[simp] theorem baseName_eq (superclass : Node) :
    baseName source superclass = pure (Component.baseName source superclass) := by
  rw [baseName, first_eq_pure.mpr (Text.Blank.head?_pieces ..), pure_bind, Component.baseName]

/-- The component that a class defines, if it extends a configured base. -/
def ofClass? (definition : Node) : Strict (Option Component) := do
  let superclass? := Component.superclass? definition
  if superclass?.isNone then return none
  let base ← baseName source (← need superclass?)
  if base ∉ conventions.baseSpellings then return none
  let name? := definition.child? "name"
  if name?.isNone then return some ⟨definition, none, .classBody⟩
  return some ⟨definition, some ((← need name?).text source), .classBody⟩

@[simp] theorem ofClass?_eq (definition : Node) :
    ofClass? source conventions definition =
      pure (Component.ofClass? source conventions definition) := by
  rw [ofClass?, Component.ofClass?]
  cases Component.superclass? definition with
  | none => rfl
  | some superclass =>
      by_cases base : Component.baseName source superclass ∈ conventions.baseSpellings <;>
        cases definition.child? "name" <;> simp [base]

/-- The name of the variable that a factory's result is bound to. -/
def boundName? (call : Node) : Strict (Option String) := do
  if call.parent?.isNone then return none
  let declarator ← need call.parent?
  if declarator.kind != "variable_declarator" then return none
  let pattern? := declarator.child? "name"
  if pattern?.isNone then return none
  let pattern ← need pattern?
  if pattern.kind == "identifier" then return some (pattern.text source)
  return none

@[simp] theorem boundName?_eq (call : Node) :
    boundName? source call = pure (Component.boundName? source call) := by
  rw [boundName?, Component.boundName?]
  cases call.parent? with
  | none => rfl
  | some declarator =>
      by_cases declares : declarator.kind = "variable_declarator"
      · cases bound : declarator.child? "name" <;> simp [declares, bound, pure_ite]
      · simp [declares]

/-- The component that an object literal defines, if it is the first argument of a call of a
configured factory. -/
def ofObject? (object : Node) : Strict (Option Component) := do
  if object.parent?.isNone then return none
  let list ← need object.parent?
  if list.kind != "arguments" then return none
  if list.parent?.isNone then return none
  let call ← need list.parent?
  if call.kind != "call_expression" then return none
  let callee? := call.child? "function"
  if callee?.isNone then return none
  if (← need callee?).text source ∉ conventions.factorySpellings then return none
  let arguments ← arguments call
  if arguments.isEmpty then return none
  if !(← sameNode (some (← first arguments)) (some object)) then return none
  return some ⟨object, ← boundName? source call, .objectLiteral⟩

@[simp] theorem ofObject?_eq (object : Node) :
    ofObject? source conventions object =
      pure (Component.ofObject? source conventions object) := by
  rw [ofObject?, Component.ofObject?]
  cases object.parent? with
  | none => rfl
  | some list =>
      by_cases listed : list.kind = "arguments"
      · cases sits : list.parent? with
        | none => simp [listed, sits]
        | some call =>
            by_cases calls : call.kind = "call_expression"
            · cases callee? : call.child? "function" with
              | none => simp [listed, sits, calls, callee?]
              | some callee =>
                  by_cases factory : callee.text source ∈ conventions.factorySpellings <;>
                    cases arguments : call.arguments <;>
                    simp [listed, sits, calls, callee?, factory, arguments, pure_ite]
            · simp [listed, sits, calls]
      · simp [listed]

/-- What an ancestor says about the component around a node. -/
def decide? (ancestor : Node) : Strict (Option (Option Component)) := do
  if ancestor.kind ∈ Component.classKinds && ancestor.isNamed then
    return some (← ofClass? source conventions ancestor)
  if ancestor.kind == "object" then
    let component? ← ofObject? source conventions ancestor
    if component?.isSome then return some component?
  return none

@[simp] theorem decide?_eq (ancestor : Node) :
    decide? source conventions ancestor = pure (Component.decide? source conventions ancestor) := by
  rw [decide?, Component.decide?]
  cases made : Component.ofObject? source conventions ancestor <;> simp [made, pure_ite]

/-- The nearest component around a node. -/
def around? (node : Node) : Strict (Option Component) := do
  return (← nearest? node (decide? source conventions)).join

@[simp] theorem around?_eq (node : Node) :
    around? source conventions node = pure (Component.around? source conventions node) := by
  rw [around?, nearest?_eq (decide?_eq source conventions), pure_bind, Component.around?]

end StaleRead.Strict
