import StaleRead.Analysis.Role
import StaleRead.Proofs.Transfer.Basic

/-! # Shapes in an edited tree

A transfer takes state updates, named functions, declarators, reads and components to those
of the edited tree, with the images of their parts. None of these is a class body, and their
parts do not stand among the members of one: a shape tells the kind of a node before it looks
at its children.
-/

namespace StaleRead

/-- A state update with the images of its parts. -/
def StateUpdate.map (image : Node → Node) (update : StateUpdate) : StateUpdate where
  call := image update.call
  argumentList? := update.argumentList?.map image
  first? := update.first?.map image

/-- A named function with the image of its node. -/
def NamedFunction.map (image : Node → Node) (definition : NamedFunction) : NamedFunction :=
  { definition with node := image definition.node }

/-- A declarator with the images of its parts. -/
def Declarator.map (image : Node → Node) (declarator : Declarator) : Declarator where
  node := image declarator.node
  pattern? := declarator.pattern?.map image
  value? := declarator.value?.map image

/-- A role with the images of the parts of the node that plays it. -/
def ReadRole.map (image : Node → Node) : ReadRole → ReadRole
  | .update call => .update (call.map image)
  | .function definition => .function (definition.map image)
  | .binding declarator => .binding (declarator.map image)

/-- A taken property with the images of its parts. -/
def TakenProperty.map (image : Node → Node) (property : TakenProperty) : TakenProperty where
  key := image property.key
  pattern? := property.pattern?.map image

/-- A component with the image of its node. -/
def Component.map (image : Node → Node) (component : Component) : Component :=
  { component with node := image component.node }

theorem NamedFunction.kind_of_assignedMember? {left target : Node}
    (found : assignedMember? left = some target) : target.kind = "member_expression" := by
  rw [assignedMember?, Option.ite_none_right_eq_some] at found
  rw [← Option.some.inj found.2]
  exact found.1.1

namespace Transfer

variable (transfer : Transfer) (source : Source) (conventions : Conventions)

@[simp] theorem isThis_image (node : Node) : (transfer.image node).isThis = node.isThis := by
  rw [Node.isThis, kind_image, Node.isThis]

@[simp] theorem plainName?_image (property : Node) :
    (transfer.image property).plainName? source = property.plainName? source := by
  rw [Node.plainName?, kind_image, text_image, Node.plainName?]

@[simp] theorem isMemberOfThis_image (name : String) (node : Node) :
    (transfer.image node).isMemberOfThis source name = node.isMemberOfThis source name := by
  rw [Node.isMemberOfThis, Node.isMemberOfThis, kind_image]
  by_cases isMember : node.kind = "member_expression"
  · have keeps := transfer.keeps_of_kind_eq isMember (by decide)
    simp [child?_image keeps, Option.any_map]
  · simp [beq_eq_false_iff_ne.mpr isMember]

@[simp] theorem isAssigned_image (node : Node) :
    (transfer.image node).isAssigned = node.isAssigned := by
  rw [Node.isAssigned, parent?_image, Option.any_map, Node.isAssigned]
  congr 1
  funext parent
  by_cases isBody : parent.kind = "class_body"
  · simp [isBody]
  · simp [child?_image (transfer.keeps_of_kind isBody), Option.any_map]

@[simp] theorem readsState_image (node : Node) :
    (transfer.image node).readsState source = node.readsState source := by
  rw [Node.readsState, isMemberOfThis_image, isAssigned_image, Node.readsState]

section Call

variable {transfer} {call : Node} (isCall : call.kind = "call_expression")

include isCall

theorem arguments_image :
    (transfer.image call).arguments = call.arguments.map transfer.image := by
  have plain : call.kind ∉ Component.classKinds := by
    rw [isCall]
    decide
  rw [Node.arguments, Node.arguments,
    child?_image (transfer.keeps_of_kind_eq isCall (by decide))]
  cases found : call.child? "arguments" with
  | none => rfl
  | some list =>
      have keeps := transfer.keeps_of_child? found plain
      exact filter_namedChildren_image keeps (· != "comment") rfl

theorem head?_arguments_image :
    (transfer.image call).arguments.head? = call.arguments.head?.map transfer.image := by
  rw [arguments_image isCall, List.head?_map]

theorem invokedName?_image :
    (transfer.image call).invokedName? source = call.invokedName? source := by
  rw [Node.invokedName?, Node.invokedName?,
    child?_image (transfer.keeps_of_kind_eq isCall (by decide))]
  cases call.child? "function" with
  | none => rfl
  | some callee =>
      simp only [Option.map_some, Option.bind_eq_bind, Option.bind_some, kind_image, text_image]
      by_cases isMember : callee.kind = "member_expression"
      · have keeps := transfer.keeps_of_kind_eq isMember (by decide)
        simp only [child?_image keeps, Option.any_map, Option.bind_map, Function.comp_def,
          isThis_image, plainName?_image]
      · simp only [isMember, false_and, if_false]

end Call

theorem updateOfNode?_image (node : Node) :
    StateUpdate.ofNode? source (transfer.image node) =
      (StateUpdate.ofNode? source node).map (StateUpdate.map transfer.image) := by
  rw [StateUpdate.ofNode?, StateUpdate.ofNode?, kind_image]
  by_cases isCall : node.kind = "call_expression"
  · have keeps := transfer.keeps_of_kind_eq isCall (by decide)
    simp only [child?_image keeps, head?_arguments_image isCall, Option.any_map,
      isMemberOfThis_image]
    split <;> rfl
  · simp only [isCall, false_and, if_false, Option.map_none]

theorem climb_image (call argumentList first current : Span) (node : Node) :
    StateUpdate.climb call argumentList first current (transfer.image node).above =
      StateUpdate.climb call argumentList first current node.above := by
  obtain ⟨tree, above⟩ := node
  induction above generalizing tree current with
  | nil => rw [above_image_nil]
  | cons step above ih =>
      obtain ⟨slot, split⟩ := transfer.above_image_cons tree step above
      have parent : (transfer.image ⟨step.parent, above⟩).tree.span = step.parent.span :=
        transfer.span_image _
      rw [split, StateUpdate.climb, StateUpdate.climb]
      simp only [parent, ih]

theorem holdsInFirst_image (update : StateUpdate) (node : Node) :
    (update.map transfer.image).holdsInFirst (transfer.image node) = update.holdsInFirst node := by
  obtain ⟨call, argumentList?, first?⟩ := update
  rw [StateUpdate.holdsInFirst, StateUpdate.holdsInFirst, StateUpdate.map]
  cases argumentList? with
  | none => rfl
  | some argumentList =>
      cases first? with
      | none => rfl
      | some first =>
          simp only [Option.map_some, span_image]
          exact transfer.climb_image _ _ _ _ node

theorem holding?_image (inner node : Node) :
    StateUpdate.holding? source (transfer.image inner) (transfer.image node) =
      (StateUpdate.holding? source inner node).map (StateUpdate.map transfer.image) := by
  have holds : (fun update => StateUpdate.holdsInFirst update (transfer.image inner)) ∘
      StateUpdate.map transfer.image = fun update => StateUpdate.holdsInFirst update inner :=
    funext fun update => transfer.holdsInFirst_image update inner
  rw [StateUpdate.holding?, StateUpdate.holding?, updateOfNode?_image, Option.filter_map, holds]

theorem enclosingUpdate?_image (node : Node) :
    (transfer.image node).enclosingUpdate? source =
      (node.enclosingUpdate? source).map (StateUpdate.map transfer.image) :=
  transfer.nearest?_image (transfer.holding?_image source node) node

@[simp] theorem identifierName?_image (node : Node) :
    NamedFunction.identifierName? source (transfer.image node) =
      NamedFunction.identifierName? source node := by
  rw [NamedFunction.identifierName?, kind_image, text_image, NamedFunction.identifierName?]

theorem assignedMember?_image (left : Node) :
    NamedFunction.assignedMember? (transfer.image left) =
      (NamedFunction.assignedMember? left).map transfer.image := by
  rw [NamedFunction.assignedMember?, NamedFunction.assignedMember?, kind_image]
  by_cases isMember : left.kind = "member_expression"
  · have keeps := transfer.keeps_of_kind_eq isMember (by decide)
    simp only [child?_image keeps, Option.any_map, isThis_image]
    split <;> rfl
  · simp only [isMember, false_and, if_false, Option.map_none]

theorem nameFrom?_image (node parent : Node) :
    NamedFunction.nameFrom? source (transfer.image node) (transfer.image parent) =
      NamedFunction.nameFrom? source node parent := by
  by_cases isBody : parent.kind = "class_body"
  · simp [NamedFunction.nameFrom?, isBody]
  · have found := child?_image (transfer.keeps_of_kind isBody)
    have member (target : Node) (isTarget : target.kind = "member_expression") :
        ((transfer.image target).child? "property").bind (·.plainName? source) =
          (target.child? "property").bind (·.plainName? source) := by
      rw [child?_image (transfer.keeps_of_kind_eq isTarget (by decide)), Option.bind_map]
      simp only [Function.comp_def, plainName?_image]
    have assigned : (((transfer.image parent).child? "left").bind
          NamedFunction.assignedMember?).map
            (fun target => (target.child? "property").bind (·.plainName? source)) =
        ((parent.child? "left").bind NamedFunction.assignedMember?).map
          fun target => (target.child? "property").bind (·.plainName? source) := by
      rw [found, Option.bind_map]
      cases parent.child? "left" with
      | none => rfl
      | some left =>
          simp only [Option.bind_some, Function.comp_apply, assignedMember?_image, Option.map_map]
          cases target : NamedFunction.assignedMember? left with
          | none => rfl
          | some target =>
              simp only [Option.map_some, Function.comp_apply]
              rw [member _ (NamedFunction.kind_of_assignedMember? ‹_›)]
    simp only [NamedFunction.nameFrom?, NamedFunction.fills, assigned]
    simp only [kind_image, ne_eq, span_image, found, Option.any_map, Option.bind_map,
      Function.comp_def, plainName?_image, identifierName?_image, Option.map_bind]

theorem functionOfNode?_image (node : Node) :
    NamedFunction.ofNode? source (transfer.image node) =
      (NamedFunction.ofNode? source node).map (NamedFunction.map transfer.image) := by
  rw [NamedFunction.ofNode?, NamedFunction.ofNode?, kind_image, isNamed_image, parent?_image]
  by_cases isBody : node.kind = "class_body"
  · have other : node.kind ∉ functionKinds := by
      rw [isBody]
      decide
    simp [other]
  · simp only [child?_image (transfer.keeps_of_kind isBody), Option.bind_map, Function.comp_def,
      plainName?_image, identifierName?_image, nameFrom?_image]
    split_ifs
    · rfl
    · rfl
    · rfl
    · rw [Option.map_map]
      rfl

theorem enclosingFunction?_image (node : Node) :
    (transfer.image node).enclosingFunction? source =
      (node.enclosingFunction? source).map (NamedFunction.map transfer.image) :=
  transfer.nearest?_image (transfer.functionOfNode?_image source) node

theorem bindings_of_drops {node : Node} (dropped : transfer.drops node = true) :
    node.bindings = [] := by
  rw [Node.bindings_eq, transfer.kind_of_drops dropped]
  rfl

@[simp] theorem bindings_image (pattern : Node) :
    (transfer.image pattern).bindings = pattern.bindings.map transfer.image := by
  induction pattern using Node.children_induction with
  | step pattern ih =>
      rw [Node.bindings_eq, Node.bindings_eq, kind_image]
      by_cases isBody : pattern.kind = "class_body"
      · rw [isBody]
        rfl
      · have keeps := transfer.keeps_of_kind isBody
        cases form : PatternForm.ofKind pattern.kind with
        | leaf => rfl
        | through field =>
            simp only [child?_image keeps]
            cases fills : pattern.child? field with
            | none => rfl
            | some child =>
                exact ih child (Node.mem_children_of_child? fills)
        | each =>
            simp only [namedChildren_image keeps]
            refine flatMap_images (fun child member _ => ?_) fun child dropped => ?_
            · exact ih child (Node.mem_namedChildren.mp member).1
            · exact transfer.bindings_of_drops dropped
        | inert => rfl

theorem declaratorOfNode?_image (node : Node) :
    Declarator.ofNode? (transfer.image node) =
      (Declarator.ofNode? node).map (Declarator.map transfer.image) := by
  rw [Declarator.ofNode?, Declarator.ofNode?, kind_image]
  by_cases isDeclarator : node.kind = "variable_declarator"
  · have keeps := transfer.keeps_of_kind_eq isDeclarator (by decide)
    rw [if_pos isDeclarator, if_pos isDeclarator, child?_image keeps, child?_image keeps]
    rfl
  · rw [if_neg isDeclarator, if_neg isDeclarator]
    rfl

theorem roleAt?_image (read ancestor : Node) :
    ReadRole.at? source (transfer.image read) (transfer.image ancestor) =
      (ReadRole.at? source read ancestor).map (ReadRole.map transfer.image) := by
  rw [ReadRole.at?, ReadRole.at?, holding?_image]
  cases StateUpdate.holding? source read ancestor with
  | some call => rfl
  | none =>
      rw [functionOfNode?_image]
      cases NamedFunction.ofNode? source ancestor with
      | some definition => rfl
      | none =>
          rw [declaratorOfNode?_image]
          cases Declarator.ofNode? ancestor with
          | none => rfl
          | some declarator =>
              simp only [Option.map_none, Option.map_some, Declarator.map, Option.any_map,
                span_image]
              split <;> rfl

theorem roleOf?_image (read : Node) :
    ReadRole.of? source (transfer.image read) =
      (ReadRole.of? source read).map (ReadRole.map transfer.image) :=
  transfer.nearest?_image (transfer.roleAt?_image source read) read

theorem takenState?_image (property : Node) :
    TakenProperty.state? source (transfer.image property) =
      (TakenProperty.state? source property).map (TakenProperty.map transfer.image) := by
  rw [TakenProperty.state?, TakenProperty.state?]
  by_cases isBody : property.kind = "class_body"
  · simp [isBody]
  · simp only [kind_image, text_image, child?_image (transfer.keeps_of_kind isBody)]
    split_ifs
    · rfl
    · rfl
    · cases property.child? "key" with
      | none => rfl
      | some key =>
          simp only [Option.map_some, Option.bind_eq_bind, Option.bind_some, plainName?_image]
          split <;> rfl
    · cases property.child? "left" with
      | none => rfl
      | some left =>
          simp only [Option.map_some, Option.bind_eq_bind, Option.bind_some, kind_image,
            text_image]
          split <;> rfl
    · rfl

theorem filterMap_takenState?_image {pattern : Node} (keeps : transfer.keeps pattern) :
    (transfer.image pattern).namedChildren.filterMap (TakenProperty.state? source) =
      (pattern.namedChildren.filterMap (TakenProperty.state? source)).map
        (TakenProperty.map transfer.image) := by
  rw [namedChildren_image keeps, List.filterMap_eq_flatMap_toList,
    List.filterMap_eq_flatMap_toList]
  apply flatMap_images
  · intro property _ _
    rw [takenState?_image, Option.toList_map]
  · intro property dropped
    rw [TakenProperty.state?, transfer.kind_of_drops dropped]
    rfl

theorem fromThis?_image (node : Node) :
    TakenProperty.fromThis? source (transfer.image node) =
      (TakenProperty.fromThis? source node).map (List.map (TakenProperty.map transfer.image)) := by
  rw [TakenProperty.fromThis?, TakenProperty.fromThis?, declaratorOfNode?_image]
  cases Declarator.ofNode? node with
  | none => rfl
  | some declarator =>
      obtain ⟨_, pattern?, value?⟩ := declarator
      cases value? with
      | none => rfl
      | some value =>
          cases pattern? with
          | none => rfl
          | some pattern =>
              simp only [Option.map_some, Option.bind_eq_bind, Option.bind_some, Declarator.map,
                isThis_image, kind_image]
              by_cases isPattern : pattern.kind = "object_pattern"
              · rw [filterMap_takenState?_image transfer source
                  (transfer.keeps_of_kind_eq isPattern (by decide))]
                split <;> rfl
              · simp only [isPattern, and_false, if_false, Option.map_none]

theorem outermostOperation_image (node : Node) :
    (transfer.image node).outermostOperation = transfer.image node.outermostOperation := by
  obtain ⟨tree, above⟩ := node
  induction above generalizing tree with
  | nil =>
      have alone : Node.outermostOperation ⟨tree, []⟩ = ⟨tree, []⟩ := rfl
      have top := transfer.above_image_nil tree
      rw [alone]
      generalize transfer.image ⟨tree, []⟩ = image at top ⊢
      obtain ⟨subtree, above⟩ := image
      obtain rfl : above = [] := top
      rfl
  | cons step above ih =>
      obtain ⟨slot, split⟩ := transfer.above_image_cons tree step above
      have parent : (transfer.image ⟨step.parent, above⟩).tree.kind = step.parent.kind :=
        transfer.kind_image _
      rw [Node.outermostOperation, Node.outermostOperation, split, Node.outermostAt,
        Node.outermostAt]
      simp only [parent]
      split
      · exact ih step.parent
      · rw [← split]

theorem standsForObject_image (node : Node) :
    (transfer.image node).standsForObject = node.standsForObject := by
  rw [Node.standsForObject, kind_image, parent?_image, Option.any_map, Node.standsForObject]
  congr 2
  funext parent
  by_cases isBody : parent.kind = "class_body"
  · simp [isBody]
  · simp [child?_image (transfer.keeps_of_kind isBody), Option.any_map]

theorem keeps_of_isClass {node : Node} (isClass : node.kind ∈ Component.classKinds) :
    transfer.keeps node := by
  apply transfer.keeps_of_kind
  intro isBody
  rw [isBody] at isClass
  exact absurd isClass (by decide)

theorem superclass?_image {definition : Node} (isClass : definition.kind ∈ Component.classKinds) :
    Component.superclass? (transfer.image definition) =
      (Component.superclass? definition).map transfer.image := by
  have kept : (transfer.image definition).children = transfer.images definition.children :=
    transfer.children_image definition (transfer.keeps_of_isClass isClass)
  have parts (nodes : List Node) (heritage : ∀ node ∈ nodes, node.kind = "class_heritage") :
      (nodes.map transfer.image).flatMap Node.namedChildren =
        transfer.images (nodes.flatMap Node.namedChildren) := by
    rw [images, List.filter_flatMap, List.map_flatMap, List.flatMap_map]
    apply List.flatMap_congr
    intro node member
    exact namedChildren_image (transfer.keeps_of_kind_eq (heritage node member) (by decide))
  have found (nodes : List Node) :
      (transfer.images nodes).find? (fun part =>
          part.kind != "implements_clause" && part.kind != "comment") =
        (nodes.find? fun part =>
          part.kind != "implements_clause" && part.kind != "comment").map transfer.image := by
    apply find?_images
    · intro part
      rw [kind_image]
    · intro part dropped
      rw [transfer.kind_of_drops dropped]
      rfl
  have heritage : ∀ node ∈ definition.children.filter (·.kind == "class_heritage"),
      node.kind = "class_heritage" :=
    fun node member => by simpa using (List.mem_filter.mp member).2
  simp only [Component.superclass?, Option.bind_eq_bind]
  rw [kept, filter_kind_images (· == "class_heritage") rfl, parts _ heritage, found,
    Option.bind_map, Option.map_bind]
  congr 1
  funext part
  simp only [Function.comp_apply, kind_image]
  by_cases isExtends : part.kind = "extends_clause"
  · rw [if_pos isExtends, if_pos isExtends,
      child?_image (transfer.keeps_of_kind_eq isExtends (by decide))]
  · rw [if_neg isExtends, if_neg isExtends]
    rfl

@[simp] theorem baseName_image (superclass : Node) :
    Component.baseName source (transfer.image superclass) =
      Component.baseName source superclass := by
  rw [Component.baseName, text_image, Component.baseName]

theorem ofClass?_image {definition : Node} (isClass : definition.kind ∈ Component.classKinds) :
    Component.ofClass? source conventions (transfer.image definition) =
      (Component.ofClass? source conventions definition).map (Component.map transfer.image) := by
  rw [Component.ofClass?, Component.ofClass?, superclass?_image transfer isClass]
  cases Component.superclass? definition with
  | none => rfl
  | some superclass =>
      simp only [Option.map_some, Option.bind_eq_bind, Option.bind_some, baseName_image,
        child?_image (transfer.keeps_of_isClass isClass), text_image, Option.map_map,
        Function.comp_def]
      split_ifs <;> rfl

theorem boundName?_image (call : Node) :
    Component.boundName? source (transfer.image call) = Component.boundName? source call := by
  rw [Component.boundName?, Component.boundName?, parent?_image]
  cases call.parent? with
  | none => rfl
  | some declarator =>
      simp only [Option.map_some, Option.bind_eq_bind, Option.bind_some, kind_image]
      by_cases isDeclarator : declarator.kind = "variable_declarator"
      · have keeps := transfer.keeps_of_kind_eq isDeclarator (by decide)
        simp only [child?_image keeps, Option.bind_map, Function.comp_def, kind_image, text_image]
      · rw [if_pos isDeclarator, if_pos isDeclarator]

theorem ofObject?_image (object : Node) :
    Component.ofObject? source conventions (transfer.image object) =
      (Component.ofObject? source conventions object).map (Component.map transfer.image) := by
  rw [Component.ofObject?, Component.ofObject?, parent?_image]
  cases object.parent? with
  | none => rfl
  | some list =>
      simp only [Option.map_some, Option.bind_eq_bind, Option.bind_some, parent?_image]
      cases list.parent? with
      | none => rfl
      | some call =>
          simp only [Option.map_some, Option.bind_some, kind_image]
          by_cases isCall : call.kind = "call_expression"
          · have keeps := transfer.keeps_of_kind_eq isCall (by decide)
            simp only [child?_image keeps, head?_arguments_image isCall, Option.bind_map,
              Option.map_bind, Function.comp_def, text_image, span_image, boundName?_image,
              apply_ite (Option.map (Component.map transfer.image)), Option.map_some,
              Option.map_none, Component.map]
          · -- The call is looked into before its kind is asked for.
            simp [isCall]

theorem decide?_image (ancestor : Node) :
    Component.decide? source conventions (transfer.image ancestor) =
      (Component.decide? source conventions ancestor).map
        (Option.map (Component.map transfer.image)) := by
  rw [Component.decide?, Component.decide?, kind_image, isNamed_image, ofObject?_image]
  split_ifs with isClass
  · rw [ofClass?_image transfer source conventions isClass.1]
    rfl
  · rw [Option.map_map, Option.map_map]
    rfl
  · rfl

theorem around?_image (node : Node) :
    Component.around? source conventions (transfer.image node) =
      (Component.around? source conventions node).map (Component.map transfer.image) := by
  rw [Component.around?, transfer.nearest?_image (transfer.decide?_image source conventions),
    Component.around?]
  cases node.nearest? (Component.decide? source conventions) <;> rfl

end Transfer

end StaleRead
