import StaleRead.Memo
import StaleRead.Shape.Call
import StaleRead.Text.Blank

/-! # Components

A component is a class that extends one of the configured bases, or an object
literal that is the first argument of a call of a configured factory. The nearest
class around a node decides: a plain class inside a component hides it. Object
literals that are no component are seen through.
-/

namespace StaleRead

/-- The names that mark components: the library's namespace, the factory of object
components, and the base classes without the namespace. -/
structure Conventions where
  pragma : String
  factory : String
  bases : List String
deriving DecidableEq

namespace Conventions

/-- The base classes, each with and without the namespace. -/
def baseSpellings (conventions : Conventions) : List String :=
  conventions.bases.flatMap fun base => [base, conventions.pragma ++ "." ++ base]

/-- The configured factory and the namespace's own. -/
def factorySpellings (conventions : Conventions) : List String :=
  [conventions.factory, conventions.pragma ++ ".createClass"]

end Conventions

/-- How a component is written. -/
inductive ComponentStyle where
  /-- A class that extends a base. -/
  | classBody
  /-- An object literal that is handed to a factory. -/
  | objectLiteral
deriving DecidableEq

/-- A component: the class or object that defines it. -/
structure Component where
  node : Node
  name? : Option String
  style : ComponentStyle

namespace Component

/-- The span that identifies a component. -/
def span (component : Component) : Span := component.node.span

/-- The kinds of nodes that are classes. -/
def classKinds : List String :=
  ["class_declaration", "class", "abstract_class_declaration"]

/-- The expression that a class extends. It stands in the class's heritage, inside an
extends clause where the grammar has one; interfaces and comments are passed over. -/
def superclass? (definition : Node) : Option Node := do
  let heritage := definition.children.filter (·.kind == "class_heritage")
  let part ← (heritage.flatMap Node.namedChildren).find? fun part =>
    part.kind != "implements_clause" && part.kind != "comment"
  if part.kind = "extends_clause" then part.child? "value" else some part

/-- The name of a base class, without type arguments. -/
def baseName (source : Source) (superclass : Node) : String :=
  String.ofList (Text.Blank.trimChars ((superclass.text source).toList.takeWhile (· != '<')))

/-- The component that a class defines, if it extends a configured base. -/
def ofClass? (source : Source) (conventions : Conventions) (definition : Node) :
    Option Component := do
  let superclass ← superclass? definition
  if baseName source superclass ∈ conventions.baseSpellings then
    some ⟨definition, (definition.child? "name").map (·.text source), .classBody⟩
  else
    none

/-- The name of the variable that a factory's result is bound to. -/
def boundName? (source : Source) (call : Node) : Option String := do
  let declarator ← call.parent?
  if declarator.kind ≠ "variable_declarator" then none
  else
    let pattern ← declarator.child? "name"
    if pattern.kind = "identifier" then some (pattern.text source) else none

/-- The component that an object literal defines, if it is the first argument of a
call of a configured factory. -/
def ofObject? (source : Source) (conventions : Conventions) (object : Node) :
    Option Component := do
  let list ← object.parent?
  let call ← list.parent?
  let callee ← call.child? "function"
  let first ← call.arguments.head?
  if list.kind = "arguments" ∧ call.kind = "call_expression" ∧
      callee.text source ∈ conventions.factorySpellings ∧ first.span = object.span then
    some ⟨object, boundName? source call, .objectLiteral⟩
  else
    none

/-- What an ancestor says about the component around a node: a class decides it either
way, an object literal decides it only if it is a component, and nothing else does. -/
def decide? (source : Source) (conventions : Conventions) (ancestor : Node) :
    Option (Option Component) :=
  if ancestor.kind ∈ classKinds ∧ ancestor.isNamed then
    some (ofClass? source conventions ancestor)
  else if ancestor.kind = "object" then
    (ofObject? source conventions ancestor).map some
  else
    none

/-- The nearest component around a node. -/
def around? (source : Source) (conventions : Conventions) (node : Node) : Option Component :=
  (node.nearest? (decide? source conventions)).join

end Component

end StaleRead
