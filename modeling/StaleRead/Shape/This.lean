import StaleRead.Tree.Node

/-! # The instance and its members

Recognises `this`, a member access `this.name` that is not computed, and the reads
of `this.state`. A `this.state` on the left of an assignment is written, not read.
-/

namespace StaleRead

namespace Node

/-- The keyword `this`. -/
def isThis (node : Node) : Bool :=
  node.kind == "this"

/-- The kinds of property names that spell out a name. -/
def plainNameKinds : List String :=
  ["property_identifier", "identifier", "private_property_identifier"]

/-- The name of a property, unless it is computed or a literal. -/
def plainName? (source : Source) (property : Node) : Option String :=
  if property.kind ∈ plainNameKinds then some (property.text source) else none

/-- Whether the node is the access `this.name`. -/
def isMemberOfThis (source : Source) (name : String) (node : Node) : Bool :=
  node.kind == "member_expression" && (node.child? "object").any isThis &&
    (node.child? "property").any fun property =>
      property.kind == "property_identifier" && property.text source == name

/-- Whether the node is the target of the assignment it sits in. -/
def isAssigned (node : Node) : Bool :=
  node.parent?.any fun parent =>
    (parent.kind == "assignment_expression" || parent.kind == "augmented_assignment_expression") &&
      (parent.child? "left").any (·.span == node.span)

/-- Whether the node reads `this.state`. -/
def readsState (source : Source) (node : Node) : Bool :=
  node.isMemberOfThis source "state" && !node.isAssigned

end Node

end StaleRead
