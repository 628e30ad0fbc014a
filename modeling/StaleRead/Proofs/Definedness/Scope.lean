import StaleRead.Proofs.Definedness.Basic
import StaleRead.Proofs.Tree.Nodes
import StaleRead.Scope.Resolution

/-! # Names and scopes step by step

The strict forms of what a pattern binds, what a scope declares and where a name belongs. A
pattern, a body, a parameter list or a name may be absent in any declaration, and the parts of an
absent pattern are asked for as well: the recursion goes through patterns that are not there.
-/

namespace StaleRead.Strict

/-! ## Patterns -/

/-- The number of nodes of a pattern, if there is one. -/
def patternSize : Option Node → Nat
  | none => 0
  | some pattern => pattern.tree.size

theorem patternSize_child? (pattern : Node) (field : String) :
    patternSize (pattern.child? field) < patternSize (some pattern) := by
  cases found : pattern.child? field with
  | none =>
      rw [patternSize, patternSize, Tree.size_eq]
      omega
  | some child => exact Node.size_lt_of_mem_children (Node.mem_children_of_child? found)

/-- The identifiers that a pattern binds. An absent pattern binds nothing. -/
def bindings (pattern? : Option Node) : Strict (List Node) :=
  if pattern?.isNone then pure []
  else
    match present : need pattern? with
    | .error fault => .error fault
    | .ok pattern =>
        have : pattern? = some pattern := need_eq_pure.mp present
        match PatternForm.ofKind pattern.kind with
        | .leaf => pure [pattern]
        | .through field => bindings (pattern.child? field)
        | .each => gather (fun child => bindings (some child.val)) pattern.namedChildren.attach
        | .inert => pure []
termination_by patternSize pattern?
decreasing_by
  · rw [this]
    exact patternSize_child? pattern field
  · rw [this]
    exact Node.size_lt_of_mem_children (List.mem_filter.mp child.property).1

@[simp] theorem bindings_none : bindings none = pure [] := by
  rw [bindings]
  rfl

/-- A pattern that is there binds by its form. -/
theorem bindings_some_eq (pattern : Node) :
    bindings (some pattern) =
      match PatternForm.ofKind pattern.kind with
      | .leaf => pure [pattern]
      | .through field => bindings (pattern.child? field)
      | .each => gather (fun child => bindings (some child.val)) pattern.namedChildren.attach
      | .inert => pure [] := by
  rw [bindings]
  rfl

@[simp] theorem bindings_some (pattern : Node) :
    bindings (some pattern) = pure pattern.bindings := by
  induction pattern using Node.children_induction with
  | step pattern ih =>
      rw [bindings_some_eq, Node.bindings_eq]
      cases PatternForm.ofKind pattern.kind with
      | leaf => rfl
      | through field =>
          dsimp only
          cases found : pattern.child? field with
          | none => exact bindings_none
          | some child => exact ih child (Node.mem_children_of_child? found)
      | each =>
          have bound : ∀ child : { child // child ∈ pattern.namedChildren },
              bindings (some child.val) = pure child.val.bindings :=
            fun child => ih child.val (Node.mem_namedChildren.mp child.property).1
          simp only [bound, gather_pure]
          rw [List.flatMap_def, List.attach_map_val, List.flatMap_def]
      | inert => rfl

/-- The identifiers bound by the declarators of a declaration. -/
def declaratorBindings (declaration : Node) : Strict (List Node) :=
  gather (fun declarator => bindings (declarator.child? "name"))
    (declaration.namedChildren.filter (·.kind == "variable_declarator"))

theorem bindings_child? (field : String) (node : Node) :
    bindings (node.child? field) = pure (node.bindingsIn field) := by
  rw [Node.bindingsIn]
  cases node.child? field <;> simp

@[simp] theorem declaratorBindings_eq (declaration : Node) :
    declaratorBindings declaration = pure declaration.declaratorBindings := by
  simp only [declaratorBindings, bindings_child?, gather_pure, Node.declaratorBindings]

/-! ## Declarations -/

/-- The child in the name field, if there is one. -/
def ownName (node : Node) : Strict (List Node) := do
  let name? := node.child? "name"
  if name?.isNone then return []
  return [← need name?]

@[simp] theorem ownName_eq (node : Node) : ownName node = pure node.ownName := by
  rw [ownName, Node.ownName]
  cases node.child? "name" <;> rfl

/-- The variables that hoist to the owner of a body. -/
def hoistedBindings (body : Node) : Strict (List Node) :=
  gather declaratorBindings (body.namedChildren.flatMap Node.hoisting)

@[simp] theorem hoistedBindings_eq (body : Node) :
    hoistedBindings body = pure body.hoistedBindings := by
  rw [hoistedBindings, funext declaratorBindings_eq, gather_pure, Node.hoistedBindings]

/-- The parameters of a function. -/
def parameterBindings (function : Node) : Strict (List Node) := do
  let single? := function.child? "parameter"
  let single ← if single?.isNone then pure [] else bindings (some (← need single?))
  let parameters? := function.child? "parameters"
  if parameters?.isNone then return single
  let parameters ← need parameters?
  return single ++ (← gather (fun parameter => bindings (some parameter)) parameters.namedChildren)

@[simp] theorem parameterBindings_eq (function : Node) :
    parameterBindings function = pure function.parameterBindings := by
  rw [parameterBindings, Node.parameterBindings, Node.bindingsIn]
  cases function.child? "parameter" <;> cases function.child? "parameters" <;> simp

/-- What a function declares for its body. -/
def functionDeclarations (function : Node) : Strict (List Node) := do
  let parameters ← parameterBindings function
  let own ← if function.kind ∈ Node.selfNamingKinds then ownName function else pure []
  let body? := function.child? "body"
  if body?.isNone then return parameters ++ own
  return parameters ++ own ++ (← hoistedBindings (← need body?))

@[simp] theorem functionDeclarations_eq (function : Node) :
    functionDeclarations function = pure function.functionDeclarations := by
  rw [functionDeclarations, Node.functionDeclarations]
  cases function.child? "body" <;> by_cases selfNaming : function.kind ∈ Node.selfNamingKinds <;>
    simp [selfNaming]

/-- What a statement declares in its block. An export without a declaration declares nothing. -/
def statementDeclarations (statement : Node) : Strict (List Node) := do
  let declaration? := statement.declaration?
  if declaration?.isNone then return []
  let declaration ← need declaration?
  if declaration.kind == "lexical_declaration" then return ← declaratorBindings declaration
  if declaration.kind ∈ Node.namedDeclarationKinds then return ← ownName declaration
  return []

@[simp] theorem statementDeclarations_eq (statement : Node) :
    statementDeclarations statement = pure statement.statementDeclarations := by
  rw [statementDeclarations, Node.statementDeclarations]
  cases statement.declaration? <;> simp [pure_ite]

/-- What the statements that stand directly in a block declare. -/
def blockDeclarations (block : Node) : Strict (List Node) :=
  gather statementDeclarations block.namedChildren

@[simp] theorem blockDeclarations_eq (block : Node) :
    blockDeclarations block = pure block.blockDeclarations := by
  rw [blockDeclarations, funext statementDeclarations_eq, gather_pure, Node.blockDeclarations]

/-- The local name in an import specifier: the alias, or else the imported name, if there is one. -/
def localName (specifier : Node) : Strict (List Node) := do
  let local? := (specifier.child? "alias").or (specifier.child? "name")
  if local?.isNone then return []
  return [← need local?]

/-- The local names in one part of an import clause. -/
def importedNames (part : Node) : Strict (List Node) := do
  if part.kind == "identifier" then return [part]
  if part.kind == "namespace_import" then
    return part.namedChildren.filter (·.kind == "identifier")
  if part.kind == "named_imports" then
    return ← gather localName (part.namedChildren.filter (·.kind == "import_specifier"))
  return []

@[simp] theorem localName_eq (specifier : Node) :
    localName specifier =
      pure ((specifier.child? "alias").or (specifier.child? "name")).toList := by
  rw [localName]
  cases (specifier.child? "alias").or (specifier.child? "name") <;> rfl

@[simp] theorem importedNames_eq (part : Node) : importedNames part = pure part.importedNames := by
  rw [importedNames, Node.importedNames, funext localName_eq, gather_pure,
    List.filterMap_eq_flatMap_toList]
  simp [pure_ite]

/-- The local names in the import statements of a program. -/
def importDeclarations (program : Node) : Strict (List Node) :=
  let statements := program.namedChildren.filter (·.kind == "import_statement")
  let clauses := statements.flatMap fun statement =>
    statement.namedChildren.filter (·.kind == "import_clause")
  gather importedNames (clauses.flatMap Node.namedChildren)

@[simp] theorem importDeclarations_eq (program : Node) :
    importDeclarations program = pure program.importDeclarations := by
  rw [importDeclarations, funext importedNames_eq, gather_pure, Node.importDeclarations]

/-- What a scope declares, as the nodes that spell the names. -/
def declarations (scope : Node) : Strict (List Node) := do
  if scope.kind ∈ functionKinds then return ← functionDeclarations scope
  if scope.kind == "program" then
    return (← hoistedBindings scope) ++ (← importDeclarations scope) ++ (← blockDeclarations scope)
  if scope.kind == "for_statement" then
    let initializer? := scope.child? "initializer"
    if initializer?.isNone then return []
    let initializer ← need initializer?
    if initializer.kind == "lexical_declaration" then return ← declaratorBindings initializer
    return []
  if scope.kind == "for_in_statement" then
    if scope.children.any (·.kind ∈ Node.declarationKeywords) then
      return ← bindings (scope.child? "left")
    return []
  if scope.kind == "catch_clause" then return ← bindings (scope.child? "parameter")
  blockDeclarations scope

@[simp] theorem declarations_eq (scope : Node) : declarations scope = pure scope.declarations := by
  rw [declarations, Node.declarations]
  cases scope.child? "initializer" <;> simp [bindings_child?, pure_ite]

/-- The names that a scope declares. -/
def declaredNames (source : Source) (scope : Node) : Strict (List String) := do
  return (← declarations scope).map (·.text source)

@[simp] theorem declaredNames_eq (source : Source) (scope : Node) :
    declaredNames source scope = pure (scope.declaredNames source) := by
  rw [declaredNames, declarations_eq, pure_bind, Node.declaredNames]

/-! ## Resolving names -/

/-- Answer a question about a node from a memo, or else by computing and filing it. An entry is
read only where there is one. -/
def ask {α : Type} (memo : Memo α) (compute : Node → Strict α) (node : Node) :
    Strict (α × Memo α) := do
  if (memo.find? node.span).isNone then
    let answer ← compute node
    return (answer, ⟨(node.span, answer) :: memo.answers⟩)
  return (← need (memo.find? node.span), memo)

theorem ask_eq {α : Type} {compute : Node → Strict α} {answer : Node → α}
    (computed : ∀ node, compute node = pure (answer node)) (memo : Memo α) (node : Node) :
    ask memo compute node = pure (memo.ask answer node) := by
  rw [ask, Memo.ask, computed]
  cases memo.find? node.span <;> rfl

/-- The names that a scope declares, from the scopes with the names worked out so far. -/
def names (source : Source) (scopes : Scopes) (scope : Node) : Strict (List String × Scopes) := do
  let (names, declared) ← ask scopes.declared (declaredNames source) scope
  return (names, { scopes with declared })

@[simp] theorem names_eq (source : Source) (scopes : Scopes) (scope : Node) :
    names source scopes scope = pure (scopes.names source scope) := by
  rw [names, ask_eq (declaredNames_eq source), pure_bind, Scopes.names]

/-- The span of the first scope in a list that declares a name, or else of the root. -/
def resolve (source : Source) (name : String) (scopes : Scopes) :
    List Node → Strict (Span × Scopes)
  | [] => pure (scopes.root, scopes)
  | scope :: outer => do
      let (names, scopes) ← names source scopes scope
      if name ∈ names then return (scope.span, scopes)
      resolve source name scopes outer

@[simp] theorem resolve_eq (source : Source) (name : String) (scopes : Scopes)
    (outwards : List Node) :
    resolve source name scopes outwards = pure (scopes.resolve source name outwards) := by
  induction outwards generalizing scopes with
  | nil => rfl
  | cons scope outer ih =>
      rw [resolve, Scopes.resolve, names_eq, pure_bind]
      simp only [ih, pure_ite]

/-- The span of the scope that a node's text belongs to. -/
def declaring (source : Source) (scopes : Scopes) (node : Node) : Strict (Span × Scopes) :=
  resolve source (node.text source) scopes node.scopes

@[simp] theorem declaring_eq (source : Source) (scopes : Scopes) (node : Node) :
    declaring source scopes node = pure (scopes.declaring source node) :=
  resolve_eq source (node.text source) scopes node.scopes

end StaleRead.Strict
