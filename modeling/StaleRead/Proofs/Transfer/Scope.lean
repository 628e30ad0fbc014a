import StaleRead.Proofs.Scope.Hoisting
import StaleRead.Proofs.Transfer.Shape

/-! # Scopes in an edited tree

Declarations are gathered from fields and from named children, and neither a comment nor a
method declares anything in the scope that it stands in. So if an edit adds nothing but
methods to the children of a node, a scope declares the images of what it declared before
(`Transfer.declarations_image`), and the same names.
-/

namespace StaleRead

namespace Node

theorem hoisting_of_isMethod {node : Node} (isMethod : node.kind = "method_definition") :
    node.hoisting = [] := by
  have isFunction : node.kind ∈ functionKinds := by
    rw [isMethod]
    decide
  rw [hoisting_eq, if_pos isFunction]

theorem statementDeclarations_of_isMethod {node : Node}
    (isMethod : node.kind = "method_definition") : node.statementDeclarations = [] := by
  have declares : node.declaration? = some node := by
    rw [declaration?, isMethod]
    rfl
  rw [statementDeclarations, declares]
  simp only [isMethod]
  rfl

end Node

namespace Transfer

/-- Beyond the images of the children of a node, its image has no children but methods. -/
def AddsMethods (transfer : Transfer) : Prop :=
  ∀ node, (transfer.image node).children.filter (·.kind != "method_definition") =
    (transfer.images node.children).filter (·.kind != "method_definition")

theorem isScope_image (transfer : Transfer) (node : Node) :
    (transfer.image node).isScope = node.isScope := by
  rw [Node.isScope, kind_image, Node.isScope]

theorem scopes_image (transfer : Transfer) (node : Node) :
    (transfer.image node).scopes = node.scopes.map transfer.image := by
  have isScoped : Node.isScope ∘ transfer.image = Node.isScope := funext transfer.isScope_image
  rw [Node.scopes, ancestors_image, List.filter_map, isScoped, Node.scopes]

theorem hoisting_of_drops (transfer : Transfer) {node : Node}
    (dropped : transfer.drops node = true) : node.hoisting = [] := by
  rw [Node.hoisting_eq, transfer.kind_of_drops dropped, Node.namedChildren,
    transfer.children_of_drops dropped]
  rfl

variable {transfer : Transfer} {node : Node}

section Kept

variable (keeps : transfer.keeps node)

include keeps

theorem bindingsIn_image (field : String) :
    Node.bindingsIn field (transfer.image node) =
      (Node.bindingsIn field node).map transfer.image := by
  rw [Node.bindingsIn, Node.bindingsIn, child?_image keeps]
  cases node.child? field with
  | none => rfl
  | some pattern => exact transfer.bindings_image pattern

theorem ownName_image :
    (transfer.image node).ownName = node.ownName.map transfer.image := by
  rw [Node.ownName, child?_image keeps, Option.toList_map, Node.ownName]

theorem flatMap_bindings_image :
    (transfer.image node).namedChildren.flatMap Node.bindings =
      (node.namedChildren.flatMap Node.bindings).map transfer.image := by
  rw [namedChildren_image keeps]
  apply flatMap_images
  · exact fun part _ _ => transfer.bindings_image part
  · exact fun part dropped => transfer.bindings_of_drops dropped

theorem declaratorBindings_image :
    (transfer.image node).declaratorBindings = node.declaratorBindings.map transfer.image := by
  rw [Node.declaratorBindings, filter_namedChildren_image keeps (· == "variable_declarator") rfl,
    List.flatMap_map, Node.declaratorBindings, List.map_flatMap]
  apply List.flatMap_congr
  intro declarator member
  have isDeclarator : declarator.kind = "variable_declarator" := by
    simpa using (List.mem_filter.mp member).2
  exact bindingsIn_image (transfer.keeps_of_kind_eq isDeclarator (by decide)) "name"

theorem importedNames_image :
    (transfer.image node).importedNames = node.importedNames.map transfer.image := by
  rw [Node.importedNames, Node.importedNames, kind_image]
  split_ifs
  · rfl
  · exact filter_namedChildren_image keeps (· == "identifier") rfl
  · rw [filter_namedChildren_image keeps (· == "import_specifier") rfl, List.filterMap_map,
      List.map_filterMap]
    apply List.filterMap_congr
    intro specifier member
    have isSpecifier : specifier.kind = "import_specifier" := by
      simpa using (List.mem_filter.mp member).2
    have kept := transfer.keeps_of_kind_eq isSpecifier (by decide)
    rw [Function.comp_apply, child?_image kept, child?_image kept, Option.map_or]
  · rfl

theorem clauses_image :
    ((transfer.image node).namedChildren.filter (·.kind == "import_statement")).flatMap
        (fun statement => statement.namedChildren.filter (·.kind == "import_clause")) =
      ((node.namedChildren.filter (·.kind == "import_statement")).flatMap
        fun statement => statement.namedChildren.filter (·.kind == "import_clause")).map
          transfer.image := by
  have clauses : ∀ statement ∈ node.namedChildren.filter (·.kind == "import_statement"),
      (transfer.image statement).namedChildren.filter (·.kind == "import_clause") =
        (statement.namedChildren.filter (·.kind == "import_clause")).map transfer.image := by
    intro statement member
    have isImport : statement.kind = "import_statement" := by
      simpa using (List.mem_filter.mp member).2
    have kept := transfer.keeps_of_kind_eq isImport (by decide)
    exact filter_namedChildren_image kept (· == "import_clause") rfl
  rw [filter_namedChildren_image keeps (· == "import_statement") rfl, List.flatMap_map,
    List.flatMap_congr clauses, List.map_flatMap]

theorem importDeclarations_image :
    (transfer.image node).importDeclarations = node.importDeclarations.map transfer.image := by
  simp only [Node.importDeclarations]
  rw [clauses_image keeps, List.flatMap_assoc, List.flatMap_assoc, List.flatMap_map,
    List.map_flatMap]
  apply List.flatMap_congr
  intro clause member
  have isClause : clause.kind = "import_clause" := by
    obtain ⟨_, _, found⟩ := List.mem_flatMap.mp member
    simpa using (List.mem_filter.mp found).2
  have noClass : clause.kind ∉ Component.classKinds := by
    rw [isClause]
    decide
  rw [namedChildren_image (transfer.keeps_of_kind_eq isClause (by decide))]
  apply flatMap_images
  · intro part isPart _
    have sits := Node.parent?_of_mem_children (Node.mem_namedChildren.mp isPart).1
    exact importedNames_image (transfer.keeps_of_parent? sits noClass)
  · intro part dropped
    rw [Node.importedNames, transfer.kind_of_drops dropped]
    rfl

end Kept

section Function

variable {function : Node} (isFunction : function.kind ∈ functionKinds)

include isFunction

theorem keeps_of_isFunction (transfer : Transfer) : transfer.keeps function := by
  apply transfer.keeps_of_kind
  intro isBody
  rw [isBody] at isFunction
  exact absurd isFunction (by decide)

theorem parameterBindings_image :
    (transfer.image function).parameterBindings =
      function.parameterBindings.map transfer.image := by
  have keeps := keeps_of_isFunction isFunction transfer
  rw [Node.parameterBindings, Node.parameterBindings, bindingsIn_image keeps, List.map_append,
    child?_image keeps]
  congr 1
  cases found : function.child? "parameters" with
  | none => rfl
  | some parameters =>
      have noClass : function.kind ∉ Component.classKinds := by
        have disjoint : ∀ kind ∈ functionKinds, kind ∉ Component.classKinds := by decide
        exact disjoint _ isFunction
      exact flatMap_bindings_image (transfer.keeps_of_child? found noClass)

end Function

theorem statementDeclarations_image (transfer : Transfer) (statement : Node) :
    (transfer.image statement).statementDeclarations =
      statement.statementDeclarations.map transfer.image := by
  have declares : (transfer.image statement).declaration? =
      statement.declaration?.map transfer.image := by
    rw [Node.declaration?, Node.declaration?, kind_image]
    split_ifs with isExport
    · exact child?_image (transfer.keeps_of_kind_eq isExport (by decide)) "declaration"
    · rfl
  rw [Node.statementDeclarations, Node.statementDeclarations, declares]
  cases statement.declaration? with
  | none => rfl
  | some declaration =>
      simp only [Option.map_some, kind_image]
      split_ifs with isLexical isNamed
      · exact declaratorBindings_image (transfer.keeps_of_kind_eq isLexical (by decide))
      · refine ownName_image (transfer.keeps_of_kind fun isBody => ?_)
        rw [isBody] at isNamed
        exact absurd isNamed (by decide)
      · rfl

section AddsMethods

variable (adds : transfer.AddsMethods)

include adds

/-- What is gathered from the named children of a node, if nothing is gathered from methods
and comments, is gathered from those of its image. -/
theorem AddsMethods.flatMap_namedChildren {α β : Type} {before : Node → List α}
    {after : Node → List β} {image : α → β}
    (same : ∀ child ∈ node.namedChildren,
      after (transfer.image child) = (before child).map image)
    (method : ∀ child, child.kind = "method_definition" → after child = [])
    (silent : ∀ child, transfer.drops child = true → before child = []) :
    (transfer.image node).namedChildren.flatMap after =
      (node.namedChildren.flatMap before).map image := by
  have passed (children : List Node) :
      (children.filter (·.kind != "method_definition")).flatMap after = children.flatMap after :=
    flatMap_filter (fun child isMethod => method child (by simpa using isMethod)) children
  have named : Node.isNamed ∘ transfer.image = Node.isNamed := funext transfer.isNamed_image
  have kept : (transfer.images node.children).filter Node.isNamed =
      transfer.images node.namedChildren := by
    rw [images, List.filter_map, named, images, Node.namedChildren, List.filter_comm]
  have rest : (transfer.image node).namedChildren.filter (·.kind != "method_definition") =
      (transfer.images node.namedChildren).filter (·.kind != "method_definition") := by
    rw [Node.namedChildren, List.filter_comm, adds node, List.filter_comm, kept]
  rw [← passed, rest, passed, flatMap_images (fun child member _ => same child member) silent]

theorem hoisting_image (node : Node) :
    (transfer.image node).hoisting = node.hoisting.map transfer.image := by
  induction node using Node.children_induction with
  | step node ih =>
      have below : (transfer.image node).namedChildren.flatMap Node.hoisting =
          (node.namedChildren.flatMap Node.hoisting).map transfer.image := by
        apply adds.flatMap_namedChildren
        · intro child member
          exact ih child (Node.mem_namedChildren.mp member).1
        · exact fun _ => Node.hoisting_of_isMethod
        · exact fun _ => transfer.hoisting_of_drops
      rw [Node.hoisting_eq, Node.hoisting_eq, kind_image, below]
      split_ifs <;> simp

theorem hoistedBindings_image (body : Node) :
    (transfer.image body).hoistedBindings = body.hoistedBindings.map transfer.image := by
  have hoists : (transfer.image body).namedChildren.flatMap Node.hoisting =
      (body.namedChildren.flatMap Node.hoisting).map transfer.image := by
    apply adds.flatMap_namedChildren
    · exact fun child _ => hoisting_image adds child
    · exact fun _ => Node.hoisting_of_isMethod
    · exact fun _ => transfer.hoisting_of_drops
  rw [Node.hoistedBindings, hoists, List.flatMap_map, Node.hoistedBindings, List.map_flatMap]
  apply List.flatMap_congr
  intro declaration member
  obtain ⟨child, _, hoisted⟩ := List.mem_flatMap.mp member
  have isVar := Node.kind_of_mem_hoisting hoisted
  exact declaratorBindings_image (transfer.keeps_of_kind_eq isVar (by decide))

theorem functionDeclarations_image {function : Node} (isFunction : function.kind ∈ functionKinds) :
    (transfer.image function).functionDeclarations =
      function.functionDeclarations.map transfer.image := by
  have keeps := keeps_of_isFunction isFunction transfer
  rw [Node.functionDeclarations, Node.functionDeclarations, kind_image, ownName_image keeps,
    parameterBindings_image isFunction, child?_image keeps, List.map_append, List.map_append]
  congr 1
  · split_ifs <;> rfl
  · cases function.child? "body" with
    | none => rfl
    | some body => exact hoistedBindings_image adds body

theorem blockDeclarations_image (block : Node) :
    (transfer.image block).blockDeclarations = block.blockDeclarations.map transfer.image := by
  rw [Node.blockDeclarations, Node.blockDeclarations]
  apply adds.flatMap_namedChildren
  · exact fun statement _ => transfer.statementDeclarations_image statement
  · exact fun _ => Node.statementDeclarations_of_isMethod
  · intro statement dropped
    have isComment := transfer.kind_of_drops dropped
    have declares : statement.declaration? = some statement := by
      rw [Node.declaration?, isComment]
      rfl
    rw [Node.statementDeclarations, declares]
    simp only [isComment]
    rfl

/-- A scope declares the images of what it declared. -/
theorem declarations_image (scope : Node) :
    (transfer.image scope).declarations = scope.declarations.map transfer.image := by
  by_cases isForIn : scope.kind = "for_in_statement"
  · have keeps := transfer.keeps_of_kind_eq isForIn (by decide)
    have keywords : (transfer.image scope).children.any (·.kind ∈ Node.declarationKeywords) =
        scope.children.any (·.kind ∈ Node.declarationKeywords) := by
      rw [transfer.children_image scope keeps]
      exact any_kind_images (fun kind => decide (kind ∈ Node.declarationKeywords)) rfl _
    have noFunction : scope.kind ∉ functionKinds := by
      rw [isForIn]
      decide
    have noProgram : scope.kind ≠ "program" := by simp [isForIn]
    have noFor : scope.kind ≠ "for_statement" := by simp [isForIn]
    simp only [Node.declarations, kind_image, keywords, if_neg noFunction, if_neg noProgram,
      if_neg noFor, if_pos isForIn]
    split
    · exact bindingsIn_image keeps "left"
    · rfl
  · rw [Node.declarations, Node.declarations, kind_image, if_neg isForIn, if_neg isForIn]
    split_ifs with isFunction isProgram isFor isCatch
    · exact functionDeclarations_image adds isFunction
    · rw [hoistedBindings_image adds, blockDeclarations_image adds,
        importDeclarations_image (transfer.keeps_of_kind_eq isProgram (by decide)),
        List.map_append, List.map_append]
    · rw [child?_image (transfer.keeps_of_kind_eq isFor (by decide))]
      cases scope.child? "initializer" with
      | none => rfl
      | some initializer =>
          simp only [Option.map_some, kind_image]
          split_ifs with isLexical
          · exact declaratorBindings_image (transfer.keeps_of_kind_eq isLexical (by decide))
          · rfl
    · exact bindingsIn_image (transfer.keeps_of_kind_eq isCatch (by decide)) "parameter"
    · exact blockDeclarations_image adds scope

theorem declaredNames_image (source : Source) (scope : Node) :
    (transfer.image scope).declaredNames source = scope.declaredNames source := by
  rw [Node.declaredNames, declarations_image adds, List.map_map, Node.declaredNames]
  exact List.map_congr_left fun declaration _ => transfer.text_image source declaration

theorem declaringScope?_image (source : Source) (node : Node) :
    (transfer.image node).declaringScope? source =
      (node.declaringScope? source).map transfer.image := by
  rw [Node.declaringScope?, scopes_image, List.find?_map, Node.declaringScope?]
  congr 2
  funext scope
  rw [Function.comp_apply, text_image, declaredNames_image adds]

end AddsMethods

end Transfer

end StaleRead
