import StaleRead.Shape.This

/-! # Functions with a name

A function can be reached by name if it is a method, a declaration, or an expression
whose surroundings name it: the value of an object property (not an arrow, which is
seen through), of a class field, of a variable, or of an assignment to a member of
`this`. The name itself may still be unknown, for a computed key for example. Every
other function is anonymous and belongs to what surrounds it.
-/

namespace StaleRead

/-- The kinds of nodes that are functions. -/
def functionKinds : List String :=
  ["function_declaration", "generator_function_declaration", "function_expression", "function",
    "generator_function", "arrow_function", "method_definition"]

/-- A function that has a name or a place for one. -/
structure NamedFunction where
  node : Node
  name? : Option String

namespace NamedFunction

/-- The name of an identifier. -/
def identifierName? (source : Source) (node : Node) : Option String :=
  if node.kind = "identifier" then some (node.text source) else none

/-- Whether the node fills a field of its parent, that is, has the span of the child
that does. -/
def fills (node parent : Node) (field : String) : Bool :=
  (parent.child? field).any (·.span == node.span)

/-- The member of `this` that an assignment's left side denotes. -/
def assignedMember? (left : Node) : Option Node :=
  if left.kind = "member_expression" ∧ (left.child? "object").any Node.isThis then some left
  else none

/-- The name that the parent gives to a function expression: nothing if it names no
function there, and otherwise the name as far as it is known. -/
def nameFrom? (source : Source) (node parent : Node) : Option (Option String) :=
  let key (owner : Node) (field : String) : Option String :=
    (owner.child? field).bind (·.plainName? source)
  if parent.kind = "pair" ∧ node.kind ≠ "arrow_function" ∧ fills node parent "value" then
    some (key parent "key")
  else if parent.kind = "field_definition" ∧ fills node parent "value" then
    some (key parent "property")
  else if parent.kind = "public_field_definition" ∧ fills node parent "value" then
    some (key parent "name")
  else if parent.kind = "variable_declarator" ∧ fills node parent "value" then
    ((parent.child? "name").bind (identifierName? source)).map some
  else if parent.kind = "assignment_expression" ∧ fills node parent "right" then
    ((parent.child? "left").bind assignedMember?).map (key · "property")
  else
    none

/-- The named function that a node is, if it is one. The keyword `function` shares its
kind with an expression and is told apart by being anonymous. -/
def ofNode? (source : Source) (node : Node) : Option NamedFunction :=
  if !node.isNamed || node.kind ∉ functionKinds then
    none
  else if node.kind = "method_definition" then
    some ⟨node, (node.child? "name").bind (·.plainName? source)⟩
  else if node.kind = "function_declaration" ∨ node.kind = "generator_function_declaration" then
    some ⟨node, (node.child? "name").bind (identifierName? source)⟩
  else
    (node.parent?.bind (nameFrom? source node)).map (⟨node, ·⟩)

end NamedFunction

/-- The nearest named function around a node. -/
def Node.enclosingFunction? (source : Source) (node : Node) : Option NamedFunction :=
  node.nearest? (NamedFunction.ofNode? source)

end StaleRead
