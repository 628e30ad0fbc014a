import StaleRead.Shape.Call
import StaleRead.Shape.NamedFunction
import StaleRead.Shape.Pattern

/-! # The part that a node plays

A state read is accounted for by the nearest ancestor with a role for it: a state
update that has it in the first argument, else a named function, else a declarator
whose value contains it. A declarator that takes the instance apart binds its state.
An identifier stands for an object where a member is taken from it or where it is
the value of a property.
-/

namespace StaleRead

/-- What accounts for a state read. -/
inductive ReadRole where
  /-- The read is part of the first argument of a state update. -/
  | update (call : StateUpdate)
  /-- The read belongs to a function that can be called by name. -/
  | function (definition : NamedFunction)
  /-- The read is bound to a variable. -/
  | binding (declarator : Declarator)

namespace ReadRole

/-- The role that an ancestor has for a read. -/
def at? (source : Source) (read ancestor : Node) : Option ReadRole :=
  match StateUpdate.holding? source read ancestor with
  | some call => some (.update call)
  | none =>
      match NamedFunction.ofNode? source ancestor with
      | some definition => some (.function definition)
      | none =>
          match Declarator.ofNode? ancestor with
          | some declarator =>
              if declarator.value?.any (·.span.covers read.span) then some (.binding declarator)
              else none
          | none => none

/-- The role of the nearest ancestor that has one for a read. -/
def of? (source : Source) (read : Node) : Option ReadRole :=
  read.nearest? (at? source read)

end ReadRole

/-- A property taken from the instance: its key, and the pattern it is bound to. -/
structure TakenProperty where
  key : Node
  pattern? : Option Node

namespace TakenProperty

/-- The property of an object pattern that takes the state, if it does. -/
def state? (source : Source) (property : Node) : Option TakenProperty :=
  if property.kind = "shorthand_property_identifier_pattern" then
    if property.text source = "state" then some ⟨property, some property⟩ else none
  else if property.kind = "pair_pattern" then do
    let key ← property.child? "key"
    if key.plainName? source = some "state" then some ⟨key, property.child? "value"⟩
    else none
  else if property.kind = "object_assignment_pattern" then do
    let left ← property.child? "left"
    if left.kind = "shorthand_property_identifier_pattern" ∧ left.text source = "state" then
      some ⟨left, some left⟩
    else none
  else
    none

/-- The state properties that a declarator takes from `this`, if it takes the instance
apart at all. -/
def fromThis? (source : Source) (node : Node) : Option (List TakenProperty) := do
  let declarator ← Declarator.ofNode? node
  let value ← declarator.value?
  let pattern ← declarator.pattern?
  if value.isThis ∧ pattern.kind = "object_pattern" then
    some (pattern.namedChildren.filterMap (state? source))
  else
    none

end TakenProperty

namespace Node

/-- The outermost of the binary expressions that a subtree at the given steps is an
operand of, one inside the other, or the subtree itself. -/
def outermostAt (tree : Tree) : List Step → Node
  | [] => ⟨tree, []⟩
  | step :: above =>
      if step.parent.kind = "binary_expression" then outermostAt step.parent above
      else ⟨tree, step :: above⟩

/-- The whole binary expression that a node is an operand of, or the node itself. -/
def outermostOperation (node : Node) : Node :=
  outermostAt node.tree node.above

/-- Whether a node stands for an object: as a shorthand property, as the value of a
property, or as the object of a member access. -/
def standsForObject (node : Node) : Bool :=
  node.kind == "shorthand_property_identifier" ||
    node.parent?.any fun parent =>
      (parent.kind == "pair" && (parent.child? "value").any (·.span == node.span)) ||
        (parent.kind == "member_expression" && (parent.child? "object").any (·.span == node.span))

end Node

end StaleRead
