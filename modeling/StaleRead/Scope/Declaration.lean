import StaleRead.Shape.NamedFunction
import StaleRead.Shape.Pattern

/-! # Scopes and what they declare

Functions, blocks, loops, catch clauses, class and switch bodies and the program are
scopes. A function declares its parameters and the variables that hoist to it: the
`var` declarations below its body that no nested function takes. A block declares the
lexical bindings, classes and functions that stand in it directly. What a scope
declares is given by the nodes that spell the names.
-/

namespace StaleRead

/-- The kinds of nodes that are scopes without being functions. -/
def blockScopeKinds : List String :=
  ["statement_block", "for_statement", "for_in_statement", "catch_clause", "class_body",
    "switch_body"]

namespace Node

/-- Whether a node is a scope. -/
def isScope (node : Node) : Bool :=
  node.kind == "program" || node.kind ∈ functionKinds || node.kind ∈ blockScopeKinds

/-- The identifiers bound by the child in a field. -/
def bindingsIn (field : String) (node : Node) : List Node :=
  match node.child? field with
  | none => []
  | some pattern => pattern.bindings

/-- The identifiers bound by the declarators of a declaration. -/
def declaratorBindings (declaration : Node) : List Node :=
  (declaration.namedChildren.filter (·.kind == "variable_declarator")).flatMap
    (bindingsIn "name")

/-- The child in the name field. -/
def ownName (node : Node) : List Node :=
  (node.child? "name").toList

mutual

/-- The `var` declarations of a subtree that hoist out of it: a function keeps its own. -/
def hoistingAt : Tree → List Step → List Node
  | ⟨kind, named, field, start, stop, children⟩, above =>
      let tree : Tree := ⟨kind, named, field, start, stop, children⟩
      if kind ∈ functionKinds then []
      else
        (if kind = "variable_declaration" then [⟨tree, above⟩] else []) ++
          hoistingAmong children tree above 0

/-- The `var` declarations that hoist out of the named ones of some siblings. -/
def hoistingAmong : List Tree → Tree → List Step → Nat → List Node
  | [], _, _, _ => []
  | tree :: rest, parent, above, slot =>
      (if tree.named then hoistingAt tree (⟨parent, slot⟩ :: above) else []) ++
        hoistingAmong rest parent above (slot + 1)

end

/-- The `var` declarations at and below a node that hoist out of it. -/
def hoisting (node : Node) : List Node :=
  hoistingAt node.tree node.above

theorem hoistingAmong_eq (trees : List Tree) (parent : Tree) (above : List Step) (slot : Nat) :
    hoistingAmong trees parent above slot =
      ((siblings parent above slot trees).filter isNamed).flatMap hoisting := by
  induction trees generalizing slot with
  | nil => simp [hoistingAmong, siblings]
  | cons tree rest ih =>
      rw [hoistingAmong, siblings, List.filter_cons, ih]
      by_cases named : tree.named <;> simp [isNamed, named, hoisting]

/-- A function lets nothing hoist out of it; any other node adds itself, if it is a
`var` declaration, to what hoists out of its named children. -/
theorem hoisting_eq (node : Node) :
    node.hoisting =
      if node.kind ∈ functionKinds then []
      else
        (if node.kind = "variable_declaration" then [node] else []) ++
          node.namedChildren.flatMap hoisting := by
  obtain ⟨⟨kind, named, field, start, stop, children⟩, above⟩ := node
  rw [hoisting, hoistingAt, hoistingAmong_eq]
  rfl

/-- The variables that hoist to the owner of a body. -/
def hoistedBindings (body : Node) : List Node :=
  (body.namedChildren.flatMap hoisting).flatMap declaratorBindings

/-- The parameters of a function; a lone parameter of an arrow may stand without a list. -/
def parameterBindings (function : Node) : List Node :=
  bindingsIn "parameter" function ++
    match function.child? "parameters" with
    | none => []
    | some parameters => parameters.namedChildren.flatMap bindings

/-- The kinds of function expressions, which can refer to themselves by name. -/
def selfNamingKinds : List String :=
  ["function_expression", "function", "generator_function"]

/-- What a function declares for its body. -/
def functionDeclarations (function : Node) : List Node :=
  parameterBindings function ++
    (if function.kind ∈ selfNamingKinds then ownName function else []) ++
    match function.child? "body" with
    | none => []
    | some body => hoistedBindings body

/-- The kinds of declarations that bind their own name in the block they stand in. -/
def namedDeclarationKinds : List String :=
  ["function_declaration", "generator_function_declaration", "class_declaration",
    "abstract_class_declaration"]

/-- The declaration that a statement is or exports. -/
def declaration? (statement : Node) : Option Node :=
  if statement.kind = "export_statement" then statement.child? "declaration"
  else some statement

/-- What a statement declares in its block. -/
def statementDeclarations (statement : Node) : List Node :=
  match statement.declaration? with
  | none => []
  | some declaration =>
      if declaration.kind = "lexical_declaration" then declaratorBindings declaration
      else if declaration.kind ∈ namedDeclarationKinds then ownName declaration
      else []

/-- What the statements that stand directly in a block declare. -/
def blockDeclarations (block : Node) : List Node :=
  block.namedChildren.flatMap statementDeclarations

/-- The local names in one part of an import clause. -/
def importedNames (part : Node) : List Node :=
  if part.kind = "identifier" then
    [part]
  else if part.kind = "namespace_import" then
    part.namedChildren.filter (·.kind == "identifier")
  else if part.kind = "named_imports" then
    (part.namedChildren.filter (·.kind == "import_specifier")).filterMap fun specifier =>
      (specifier.child? "alias").or (specifier.child? "name")
  else
    []

/-- The local names in the import statements of a program. -/
def importDeclarations (program : Node) : List Node :=
  let statements := program.namedChildren.filter (·.kind == "import_statement")
  let clauses := statements.flatMap fun statement =>
    statement.namedChildren.filter (·.kind == "import_clause")
  (clauses.flatMap namedChildren).flatMap importedNames

/-- The keywords that make the head of a for-in or for-of loop a declaration. -/
def declarationKeywords : List String := ["let", "const", "var"]

/-- What a scope declares, as the nodes that spell the names. -/
def declarations (scope : Node) : List Node :=
  if scope.kind ∈ functionKinds then
    functionDeclarations scope
  else if scope.kind = "program" then
    hoistedBindings scope ++ importDeclarations scope ++ blockDeclarations scope
  else if scope.kind = "for_statement" then
    match scope.child? "initializer" with
    | none => []
    | some initializer =>
        if initializer.kind = "lexical_declaration" then declaratorBindings initializer else []
  else if scope.kind = "for_in_statement" then
    if scope.children.any (·.kind ∈ declarationKeywords) then bindingsIn "left" scope
    else []
  else if scope.kind = "catch_clause" then
    bindingsIn "parameter" scope
  else
    blockDeclarations scope

/-- The names that a scope declares. -/
def declaredNames (source : Source) (scope : Node) : List String :=
  scope.declarations.map (·.text source)

end Node

end StaleRead
