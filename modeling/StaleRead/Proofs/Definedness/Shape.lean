import StaleRead.Proofs.Definedness.Basic
import StaleRead.Shape.Call
import StaleRead.Shape.NamedFunction

/-! # Recognising shapes step by step

The strict forms of the questions about the shape of a node. A field, a parent and a name may be
absent wherever one is asked for, so a node that was asked for is used through `need` only.
-/

namespace StaleRead.Strict

variable (source : Source)

/-! ## The instance and its members -/

/-- Whether two nodes are there and have one span. -/
def sameNode (first? second? : Option Node) : Strict Bool := do
  if first?.isNone || second?.isNone then return false
  return (← need first?).span == (← need second?).span

@[simp] theorem sameNode_eq (first? : Option Node) (second : Node) :
    sameNode first? (some second) = pure (first?.any (·.span == second.span)) := by
  cases first? <;> rfl

/-- Whether a node is there and is the keyword `this`. -/
def isThis (node? : Option Node) : Strict Bool := do
  if node?.isNone then return false
  return (← need node?).isThis

@[simp] theorem isThis_eq (node? : Option Node) : isThis node? = pure (node?.any Node.isThis) := by
  cases node? <;> rfl

/-- The name of a property, if there is one that is neither computed nor a literal. -/
def plainName? (property? : Option Node) : Strict (Option String) := do
  if property?.isNone then return none
  return (← need property?).plainName? source

@[simp] theorem plainName?_eq (property? : Option Node) :
    plainName? source property? = pure (property?.bind (·.plainName? source)) := by
  cases property? <;> rfl

/-- Whether a node is the access `this.name`. -/
def isMemberOfThis (name : String) (node : Node) : Strict Bool := do
  if node.kind != "member_expression" then return false
  let property? := node.child? "property"
  if !(← isThis (node.child? "object")) then return false
  if property?.isNone then return false
  let property ← need property?
  return property.kind == "property_identifier" && property.text source == name

@[simp] theorem isMemberOfThis_eq (name : String) (node : Node) :
    isMemberOfThis source name node = pure (node.isMemberOfThis source name) := by
  rw [isMemberOfThis, Node.isMemberOfThis]
  by_cases member : node.kind = "member_expression"
  · cases node.child? "property" <;>
      cases ofThis : (node.child? "object").any Node.isThis <;> simp [member, ofThis]
  · simp [member, beq_false_of_ne member]

/-- Whether a node reads `this.state`. -/
def readsState (node : Node) : Strict Bool := do
  if !(← isMemberOfThis source "state" node) then return false
  if node.parent?.isNone then return true
  let parent ← need node.parent?
  if parent.kind == "assignment_expression" || parent.kind == "augmented_assignment_expression" then
    return !(← sameNode (parent.child? "left") (some node))
  return true

@[simp] theorem readsState_eq (node : Node) :
    readsState source node = pure (node.readsState source) := by
  rw [readsState, Node.readsState, Node.isAssigned, isMemberOfThis_eq, pure_bind]
  cases node.isMemberOfThis source "state" with
  | false => rfl
  | true =>
      cases node.parent? with
      | none => rfl
      | some parent =>
          rw [Option.any_some, need_some, pure_bind]
          cases parent.kind == "assignment_expression" ||
            parent.kind == "augmented_assignment_expression" <;> simp

/-! ## Calls and state updates -/

/-- The argument expressions of a call. -/
def arguments (call : Node) : Strict (List Node) := do
  let list? := call.child? "arguments"
  if list?.isNone then return []
  return (← need list?).namedChildren.filter (·.kind != "comment")

@[simp] theorem arguments_eq (call : Node) : arguments call = pure call.arguments := by
  rw [arguments, Node.arguments]
  cases call.child? "arguments" <;> rfl

/-- The name that a call invokes. -/
def invokedName? (call : Node) : Strict (Option String) := do
  let callee? := call.child? "function"
  if callee?.isNone then return none
  let callee ← need callee?
  if callee.kind == "identifier" then return some (callee.text source)
  if callee.kind == "member_expression" then
    if ← isThis (callee.child? "object") then
      return ← plainName? source (callee.child? "property")
  return none

@[simp] theorem invokedName?_eq (call : Node) :
    invokedName? source call = pure (call.invokedName? source) := by
  rw [invokedName?, Node.invokedName?]
  cases call.child? "function" with
  | none => rfl
  | some callee =>
      by_cases named : callee.kind = "identifier"
      · simp [named]
      · by_cases member : callee.kind = "member_expression" <;>
          cases ofThis : (callee.child? "object").any Node.isThis <;>
          simp [named, member, ofThis]

/-- The state update that a node is, if it is one. Its first argument is taken from the arguments
only if there are any. -/
def stateUpdate? (node : Node) : Strict (Option StateUpdate) := do
  if node.kind != "call_expression" then return none
  let callee? := node.child? "function"
  if callee?.isNone then return none
  if !(← isMemberOfThis source "setState" (← need callee?)) then return none
  let arguments ← arguments node
  if arguments.isEmpty then return some ⟨node, node.child? "arguments", none⟩
  return some ⟨node, node.child? "arguments", some (← first arguments)⟩

@[simp] theorem stateUpdate?_eq (node : Node) :
    stateUpdate? source node = pure (StateUpdate.ofNode? source node) := by
  rw [stateUpdate?, StateUpdate.ofNode?]
  by_cases calls : node.kind = "call_expression"
  · cases node.child? "function" with
    | none => simp [calls]
    | some callee =>
        cases updates : callee.isMemberOfThis source "setState" <;>
          cases listed : node.arguments <;> simp [calls, updates, listed]
  · simp [calls]

/-- Climb from the subtree at some steps until its parent is the argument list of an update, and
compare the node reached with the first argument. The node behind the root is absent. -/
def climb (update : StateUpdate) (tree : Tree) : List Step → Strict Bool
  | [] => do
      if ← sameNode none update.argumentList? then
        return ← sameNode (some ⟨tree, []⟩) update.first?
      if ← sameNode (some ⟨tree, []⟩) (some update.call) then return false
      sameNode none update.first?
  | step :: above => do
      if ← sameNode (some ⟨step.parent, above⟩) update.argumentList? then
        return ← sameNode (some ⟨tree, step :: above⟩) update.first?
      if ← sameNode (some ⟨tree, step :: above⟩) (some update.call) then return false
      climb update step.parent above

/-- Whether a node is the first argument of an update or lies inside it. -/
def holdsInFirst (update : StateUpdate) (node : Node) : Strict Bool := do
  if update.argumentList?.isNone || update.first?.isNone then return false
  climb update node.tree node.above

theorem climb_eq {update : StateUpdate} {argumentList first : Node}
    (listed : update.argumentList? = some argumentList) (firstOne : update.first? = some first)
    (tree : Tree) (above : List Step) :
    climb update tree above =
      pure (StateUpdate.climb update.call.span argumentList.span first.span tree.span above) := by
  induction above generalizing tree with
  | nil =>
      rw [climb, StateUpdate.climb, listed, firstOne]
      cases tree.span == update.call.span <;> simp
  | cons step above ih =>
      have here : Node.span ⟨tree, step :: above⟩ = tree.span := rfl
      have outside : Node.span ⟨step.parent, above⟩ = step.parent.span := rfl
      rw [climb, StateUpdate.climb, listed, firstOne, ih]
      by_cases inList : step.parent.span = argumentList.span
      · simp [here, outside, inList]
      · by_cases isCall : tree.span = update.call.span <;> simp [here, outside, inList, isCall]

@[simp] theorem holdsInFirst_eq (update : StateUpdate) (node : Node) :
    holdsInFirst update node = pure (update.holdsInFirst node) := by
  rw [holdsInFirst, StateUpdate.holdsInFirst]
  cases listed : update.argumentList? with
  | none => rfl
  | some argumentList =>
      cases firstOne : update.first? with
      | none => rfl
      | some first => simp [climb_eq listed firstOne, Node.span]

/-- The update that a node is, if the other node lies in its first argument. -/
def holding? (inner node : Node) : Strict (Option StateUpdate) := do
  let update? ← stateUpdate? source node
  if update?.isNone then return none
  let update ← need update?
  if ← holdsInFirst update inner then return some update
  return none

@[simp] theorem holding?_eq (inner node : Node) :
    holding? source inner node = pure (StateUpdate.holding? source inner node) := by
  rw [holding?, StateUpdate.holding?, stateUpdate?_eq, pure_bind]
  cases StateUpdate.ofNode? source node with
  | none => rfl
  | some update => cases holds : update.holdsInFirst inner <;> simp [Option.filter, holds]

/-- The first answer that an ancestor gives, from the parent to the root. -/
def nearest? {α : Type} (node : Node) (question : Node → Strict (Option α)) : Strict (Option α) :=
  node.ancestors.findSomeM? question

theorem nearest?_eq {α : Type} {question : Node → Strict (Option α)} {answer : Node → Option α}
    (answered : ∀ ancestor, question ancestor = pure (answer ancestor)) (node : Node) :
    nearest? node question = pure (node.nearest? answer) := by
  rw [nearest?, funext answered, List.findSomeM?_pure, Node.nearest?]

/-- The nearest state update that has a node in its first argument. -/
def enclosingUpdate? (node : Node) : Strict (Option StateUpdate) :=
  nearest? node (holding? source node)

@[simp] theorem enclosingUpdate?_eq (node : Node) :
    enclosingUpdate? source node = pure (node.enclosingUpdate? source) :=
  nearest?_eq (holding?_eq source node) node

/-! ## Functions with a name -/

/-- The name of an identifier, if there is one. -/
def identifierName? (node? : Option Node) : Strict (Option String) := do
  if node?.isNone then return none
  return NamedFunction.identifierName? source (← need node?)

@[simp] theorem identifierName?_eq (node? : Option Node) :
    identifierName? source node? =
      pure (node?.bind (NamedFunction.identifierName? source)) := by
  cases node? <;> rfl

/-- The name that the parent gives to a function expression: nothing if it names no function
there, and otherwise the name as far as it is known. -/
def nameFrom? (node parent : Node) : Strict (Option (Option String)) := do
  if parent.kind == "pair" && node.kind != "arrow_function" then
    if ← sameNode (parent.child? "value") (some node) then
      return some (← plainName? source (parent.child? "key"))
  if parent.kind == "field_definition" then
    if ← sameNode (parent.child? "value") (some node) then
      return some (← plainName? source (parent.child? "property"))
  if parent.kind == "public_field_definition" then
    if ← sameNode (parent.child? "value") (some node) then
      return some (← plainName? source (parent.child? "name"))
  if parent.kind == "variable_declarator" then
    if ← sameNode (parent.child? "value") (some node) then
      let name? ← identifierName? source (parent.child? "name")
      if name?.isSome then return some name?
  if parent.kind == "assignment_expression" then
    if ← sameNode (parent.child? "right") (some node) then
      let left? := parent.child? "left"
      if left?.isNone then return none
      let left ← need left?
      if left.kind == "member_expression" then
        if ← isThis (left.child? "object") then
          return some (← plainName? source (left.child? "property"))
  return none

@[simp] theorem nameFrom?_eq (node parent : Node) :
    nameFrom? source node parent = pure (NamedFunction.nameFrom? source node parent) := by
  simp only [nameFrom?, NamedFunction.nameFrom?, NamedFunction.fills, sameNode_eq, plainName?_eq,
    identifierName?_eq, isThis_eq, pure_bind]
  by_cases pair : parent.kind = "pair"
  · by_cases arrow : node.kind = "arrow_function" <;> simp [pair, arrow, pure_ite]
  by_cases field : parent.kind = "field_definition"
  · simp [field, pure_ite]
  by_cases publicField : parent.kind = "public_field_definition"
  · simp [publicField, pure_ite]
  by_cases declarator : parent.kind = "variable_declarator"
  · cases (parent.child? "name").bind (NamedFunction.identifierName? source) <;>
      simp [declarator, pure_ite]
  by_cases assignment : parent.kind = "assignment_expression"
  · cases parent.child? "left" with
    | none => simp [assignment]
    | some left =>
        by_cases member : left.kind = "member_expression" <;>
          cases ofThis : (left.child? "object").any Node.isThis <;>
          simp [assignment, NamedFunction.assignedMember?, member, ofThis, pure_ite]
  simp [pair, field, publicField, declarator, assignment]

/-- The named function that a node is, if it is one. -/
def namedFunction? (node : Node) : Strict (Option NamedFunction) := do
  if !node.isNamed || node.kind ∉ functionKinds then return none
  if node.kind == "method_definition" then
    return some ⟨node, ← plainName? source (node.child? "name")⟩
  if node.kind == "function_declaration" || node.kind == "generator_function_declaration" then
    return some ⟨node, ← identifierName? source (node.child? "name")⟩
  if node.parent?.isNone then return none
  return (← nameFrom? source node (← need node.parent?)).map (⟨node, ·⟩)

@[simp] theorem namedFunction?_eq (node : Node) :
    namedFunction? source node = pure (NamedFunction.ofNode? source node) := by
  simp only [namedFunction?, NamedFunction.ofNode?, plainName?_eq, identifierName?_eq,
    nameFrom?_eq, pure_bind]
  cases node.parent? <;> simp [pure_ite]

/-- The nearest named function around a node. -/
def enclosingFunction? (node : Node) : Strict (Option NamedFunction) :=
  nearest? node (namedFunction? source)

@[simp] theorem enclosingFunction?_eq (node : Node) :
    enclosingFunction? source node = pure (node.enclosingFunction? source) :=
  nearest?_eq (namedFunction?_eq source) node

end StaleRead.Strict
