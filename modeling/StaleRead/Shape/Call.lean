import StaleRead.Shape.This

/-! # Calls and state updates

A call has argument expressions, and a callee whose name is known when it is
written `name(…)` or `this.name(…)`. A state update is a call of `this.setState`.
What matters about an update is which nodes lie in its first argument:
`StateUpdate.holdsInFirst` climbs from a node to the child of the argument list that
it lies in, and compares that child with the first argument.
-/

namespace StaleRead

namespace Node

/-- The argument expressions of a call, without punctuation and comments. -/
def arguments (call : Node) : List Node :=
  match call.child? "arguments" with
  | none => []
  | some list => list.namedChildren.filter (·.kind != "comment")

/-- The name that a call invokes, as a function or as a method of the instance. -/
def invokedName? (source : Source) (call : Node) : Option String := do
  let callee ← call.child? "function"
  if callee.kind = "identifier" then
    some (callee.text source)
  else if callee.kind = "member_expression" ∧ (callee.child? "object").any isThis then
    (← callee.child? "property").plainName? source
  else
    none

end Node

/-- A call of `this.setState`, with its argument list and first argument. -/
structure StateUpdate where
  call : Node
  argumentList? : Option Node
  first? : Option Node

namespace StateUpdate

/-- The state update that a node is, if it is one. -/
def ofNode? (source : Source) (node : Node) : Option StateUpdate :=
  if node.kind = "call_expression" ∧
      (node.child? "function").any (·.isMemberOfThis source "setState") then
    some ⟨node, node.child? "arguments", node.arguments.head?⟩
  else
    none

/-- Climb from `current` until the parent is the argument list, and compare the child
reached with the first argument. The climb fails at the call and at the root. -/
def climb (call argumentList first : Span) (current : Span) : List Step → Bool
  | [] => false
  | step :: above =>
      if step.parent.span = argumentList then current == first
      else if current = call then false
      else climb call argumentList first step.parent.span above

/-- Whether a node is the first argument of the update or lies inside it. -/
def holdsInFirst (update : StateUpdate) (node : Node) : Bool :=
  match update.argumentList?, update.first? with
  | some argumentList, some first =>
      climb update.call.span argumentList.span first.span node.span node.above
  | _, _ => false

/-- The update that a node is, if the other node lies in its first argument. -/
def holding? (source : Source) (inner : Node) (node : Node) : Option StateUpdate :=
  (ofNode? source node).filter (·.holdsInFirst inner)

end StateUpdate

/-- The nearest state update that has the node in its first argument. -/
def Node.enclosingUpdate? (source : Source) (node : Node) : Option StateUpdate :=
  node.nearest? (StateUpdate.holding? source node)

end StaleRead
