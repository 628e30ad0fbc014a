import StaleRead.Memo
import StaleRead.Scope.Declaration

/-! # Resolving names

A name belongs to the nearest scope around it that declares it, and to the root of
the tree if there is none. `Node.declaringScope?` says so directly; `Scopes` answers
the same question and remembers the names that each scope declares.
-/

namespace StaleRead

namespace Node

/-- The scopes around a node, from the nearest outwards. -/
def scopes (node : Node) : List Node :=
  node.ancestors.filter isScope

/-- The nearest scope around a node that declares its text. -/
def declaringScope? (source : Source) (node : Node) : Option Node :=
  node.scopes.find? fun scope => node.text source ∈ scope.declaredNames source

end Node

/-- The scopes of one tree, with the declared names that were worked out so far. -/
structure Scopes where
  root : Span
  declared : Memo (List String)

namespace Scopes

/-- The scopes of a tree before any question. -/
def ofTree (tree : Tree) : Scopes := ⟨tree.span, Memo.empty⟩

/-- The names that a scope declares. -/
def names (source : Source) (scopes : Scopes) (scope : Node) : List String × Scopes :=
  let (names, declared) := scopes.declared.ask (·.declaredNames source) scope
  (names, { scopes with declared })

/-- The span of the first scope in a list that declares a name, or else of the root. -/
def resolve (source : Source) (name : String) : Scopes → List Node → Span × Scopes
  | scopes, [] => (scopes.root, scopes)
  | scopes, scope :: outer =>
      let (names, scopes) := scopes.names source scope
      if name ∈ names then (scope.span, scopes) else resolve source name scopes outer

/-- The span of the scope that a node's text belongs to. -/
def declaring (source : Source) (scopes : Scopes) (node : Node) : Span × Scopes :=
  scopes.resolve source (node.text source) node.scopes

end Scopes

end StaleRead
