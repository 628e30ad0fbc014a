import StaleRead.Analysis.Role
import StaleRead.Component
import StaleRead.Flow.Closure
import StaleRead.Finding.Log
import StaleRead.Scope.Resolution
import StaleRead.Tree.Walk

/-! # Collecting evidence

One pass over the nodes of a tree reports the reads that are directly part of a state
update, records facts about the other reads, and remembers the sites that can be
judged only when all facts are known: calls of helpers and uses of identifiers in the
first argument of a state update.
-/

namespace StaleRead

/-- A call in a state update, to be judged by the reads of its callee. -/
structure HelperUse where
  component : Span
  callee : String
  node : Node

/-- A use of an identifier in a state update, to be judged by what its binding holds. -/
structure BindingUse where
  scope : Span
  name : String
  node : Node

/-- All that is known while one file is analysed. -/
structure Evidence where
  components : Memo (Option Component)
  scopes : Scopes
  flow : Flow
  log : FindingLog
  helperUses : List HelperUse
  bindingUses : List BindingUse

namespace Evidence

variable (source : Source) (conventions : Conventions)

/-- What is known of a tree before any node is visited. -/
def initial (file : String) (tree : Tree) : Evidence where
  components := Memo.empty
  scopes := Scopes.ofTree tree
  flow := Flow.empty
  log := FindingLog.ofFile file
  helperUses := []
  bindingUses := []

/-- The component around a node. -/
def component? (evidence : Evidence) (node : Node) : Option Component × Evidence :=
  let (component, components) :=
    evidence.components.ask (Component.around? source conventions) node
  (component, { evidence with components })

/-- The span of the scope that a node's text belongs to. -/
def scope (evidence : Evidence) (node : Node) : Span × Evidence :=
  let (scope, scopes) := evidence.scopes.declaring source node
  (scope, { evidence with scopes })

/-- Report a read, on account of a site if one is given. -/
def flag (evidence : Evidence) (read : Span) (site? : Option Span) : Evidence :=
  { evidence with log := (evidence.log.add source .useCallback read site?).2 }

/-- Record that an identifier is bound to what was read at a node. -/
def bindIdentifier (read : Span) (evidence : Evidence) (binding : Node) : Evidence :=
  let (scope, evidence) := evidence.scope source binding
  let fact : BindingRead := ⟨scope, some (binding.text source), read⟩
  { evidence with flow := (evidence.flow.addBindingRead fact).2 }

/-- Record that all identifiers of a pattern are bound to what was read at a node. -/
def bindPattern (evidence : Evidence) (read : Span) (pattern? : Option Node) : Evidence :=
  match pattern? with
  | none => evidence
  | some pattern => pattern.bindings.foldl (bindIdentifier source read) evidence

/-- Account for a read of the state inside a component by its role; a read without a
role has no effect. -/
def noteRead (evidence : Evidence) (node : Node) : Evidence :=
  if node.readsState source then
    match evidence.component? source conventions node with
    | (none, evidence) => evidence
    | (some component, evidence) =>
        match ReadRole.of? source node with
        | some (.update _) => evidence.flag source node.span none
        | some (.function definition) =>
            let fact : MethodRead := ⟨component.span, definition.name?, node.span⟩
            { evidence with flow := (evidence.flow.addMethodRead fact).2 }
        | some (.binding declarator) => evidence.bindPattern source node.span declarator.pattern?
        | none => evidence
  else
    evidence

/-- Record who calls whom inside a component, and remember the call if it is part of a
state update. -/
def noteCall (evidence : Evidence) (node : Node) : Evidence :=
  match evidence.component? source conventions node with
  | (none, evidence) => evidence
  | (some component, evidence) =>
      match node.invokedName? source with
      | none => evidence
      | some callee =>
          let flow :=
            match (node.enclosingFunction? source).bind NamedFunction.name? with
            | none => evidence.flow
            | some caller => evidence.flow.addCall ⟨component.span, caller, callee⟩
          let helperUses :=
            if (node.enclosingUpdate? source).isSome then
              evidence.helperUses ++ [⟨component.span, callee, node⟩]
            else
              evidence.helperUses
          { evidence with flow, helperUses }

/-- Remember the use of an identifier that stands for an object in a state update. -/
def noteIdentifier (evidence : Evidence) (node : Node) : Evidence :=
  let operation := node.outermostOperation
  if operation.standsForObject && (operation.enclosingUpdate? source).isSome then
    let (scope, evidence) := evidence.scope source node
    { evidence with bindingUses := evidence.bindingUses ++ [⟨scope, node.text source, node⟩] }
  else
    evidence

/-- Record the identifiers that take the state from `this` inside a component. -/
def noteDeclarator (evidence : Evidence) (node : Node) : Evidence :=
  match TakenProperty.fromThis? source node with
  | none => evidence
  | some properties =>
      match evidence.component? source conventions node with
      | (none, evidence) => evidence
      | (some _, evidence) =>
          properties.foldl
            (fun evidence taken => evidence.bindPattern source taken.key.span taken.pattern?)
            evidence

/-- Note what one node shows. -/
def note (evidence : Evidence) (node : Node) : Evidence :=
  if node.kind = "member_expression" then
    evidence.noteRead source conventions node
  else if node.kind = "call_expression" then
    evidence.noteCall source conventions node
  else if node.kind = "identifier" ∨ node.kind = "shorthand_property_identifier" then
    evidence.noteIdentifier source node
  else if node.kind = "variable_declarator" then
    evidence.noteDeclarator source conventions node
  else
    evidence

/-- Note what some nodes show, one after the other. -/
def noteAll (evidence : Evidence) (nodes : List Node) : Evidence :=
  nodes.foldl (note source conventions) evidence

end Evidence

end StaleRead
