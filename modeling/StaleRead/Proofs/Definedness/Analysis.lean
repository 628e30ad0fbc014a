import StaleRead.Analysis.Judgement
import StaleRead.Proofs.Definedness.Flow
import StaleRead.Proofs.Definedness.Scope
import StaleRead.Proofs.Definedness.Surroundings

/-! # The analysis is defined on every tree

The strict form of the analysis visits the nodes of a tree and judges what they show as
`lint` does, with each step on an absent node, an empty list, an unknown name, a method outside
its call graph or an unknown message as a fault. No tree and no conventions lead to a fault, and
the findings are those of `lint` (`Strict.lint_eq_ok`).
-/

namespace StaleRead.Strict

variable (source : Source) (conventions : Conventions)

/-! ## Evidence -/

/-- The component around a node. -/
def component? (evidence : Evidence) (node : Node) : Strict (Option Component × Evidence) := do
  let (component, components) ←
    ask evidence.components (around? source conventions) node
  return (component, { evidence with components })

@[simp] theorem component?_eq (evidence : Evidence) (node : Node) :
    component? source conventions evidence node =
      pure (evidence.component? source conventions node) := by
  rw [component?, ask_eq (around?_eq source conventions), pure_bind, Evidence.component?]

/-- The span of the scope that a node's text belongs to. -/
def scope (evidence : Evidence) (node : Node) : Strict (Span × Evidence) := do
  let (scope, scopes) ← declaring source evidence.scopes node
  return (scope, { evidence with scopes })

@[simp] theorem scope_eq (evidence : Evidence) (node : Node) :
    scope source evidence node = pure (evidence.scope source node) := by
  rw [scope, declaring_eq, pure_bind, Evidence.scope]

/-- Report a read, on account of a site if one is given, with the wording that is filed under the
identifier of the message. -/
def flag (evidence : Evidence) (read : Span) (site? : Option Span) : Strict Evidence :=
  match evidence.log.addById source "useCallback" read site? with
  | (.ok _, log) => pure { evidence with log }
  | (.error unknown, _) => .error (.unknownMessage unknown)

@[simp] theorem flag_eq (evidence : Evidence) (read : Span) (site? : Option Span) :
    flag source evidence read site? = pure (evidence.flag source read site?) := by
  have known : Message.ofId? "useCallback" = some .useCallback := rfl
  rw [flag, FindingLog.addById, known, Evidence.flag]

/-- Record that an identifier is bound to what was read at a node. -/
def bindIdentifier (read : Span) (evidence : Evidence) (binding : Node) : Strict Evidence := do
  let (scope, evidence) ← scope source evidence binding
  let fact : BindingRead := ⟨scope, some (binding.text source), read⟩
  return { evidence with flow := (evidence.flow.addBindingRead fact).2 }

@[simp] theorem bindIdentifier_eq (read : Span) (evidence : Evidence) (binding : Node) :
    bindIdentifier source read evidence binding =
      pure (evidence.bindIdentifier source read binding) := by
  rw [bindIdentifier, scope_eq, pure_bind, Evidence.bindIdentifier]

/-- Record that all identifiers of a pattern are bound to what was read at a node. -/
def bindPattern (evidence : Evidence) (read : Span) (pattern? : Option Node) :
    Strict Evidence := do
  (← bindings pattern?).foldlM (bindIdentifier source read) evidence

@[simp] theorem bindPattern_eq (evidence : Evidence) (read : Span) (pattern? : Option Node) :
    bindPattern source evidence read pattern? =
      pure (evidence.bindPattern source read pattern?) := by
  cases pattern? with
  | none =>
      rw [bindPattern, bindings_none, pure_bind]
      rfl
  | some pattern =>
      rw [bindPattern, bindings_some, pure_bind, foldlM_eq (bindIdentifier_eq source read),
        Evidence.bindPattern]

/-! ## Notes -/

/-- Account for a read of the state inside a component by its role. -/
def noteRead (evidence : Evidence) (node : Node) : Strict Evidence := do
  if !(← readsState source node) then return evidence
  let (component?, evidence) ← component? source conventions evidence node
  if component?.isNone then return evidence
  let component ← need component?
  match ← role? source node with
  | some (.update _) => flag source evidence node.span none
  | some (.function definition) =>
      let fact : MethodRead := ⟨component.span, definition.name?, node.span⟩
      return { evidence with flow := (evidence.flow.addMethodRead fact).2 }
  | some (.binding declarator) => bindPattern source evidence node.span declarator.pattern?
  | none => return evidence

@[simp] theorem noteRead_eq (evidence : Evidence) (node : Node) :
    noteRead source conventions evidence node =
      pure (evidence.noteRead source conventions node) := by
  rw [noteRead, Evidence.noteRead, readsState_eq, pure_bind, component?_eq, pure_bind]
  cases node.readsState source with
  | false => rfl
  | true =>
      obtain ⟨component?, evidence⟩ := evidence.component? source conventions node
      cases component? with
      | none => rfl
      | some component =>
          simp only [role?_eq, need_some, pure_bind, flag_eq, bindPattern_eq]
          cases ReadRole.of? source node with
          | none => rfl
          | some role => cases role <;> rfl

/-- The flow with the call of a callee by the enclosing function, if that has a known name. -/
def noteCaller (flow : Flow) (component : Component) (enclosing? : Option NamedFunction)
    (callee? : Option String) : Strict Flow := do
  if enclosing?.isNone then return flow
  let enclosing ← need enclosing?
  if enclosing.name?.isNone then return flow
  addCall flow component.span enclosing.name? callee?

theorem noteCaller_eq (flow : Flow) (component : Component) (enclosing? : Option NamedFunction)
    (callee : String) :
    noteCaller flow component enclosing? (some callee) =
      pure (match enclosing?.bind NamedFunction.name? with
        | none => flow
        | some caller => flow.addCall ⟨component.span, caller, callee⟩) := by
  cases enclosing? with
  | none => rfl
  | some enclosing =>
      obtain ⟨_, name?⟩ := enclosing
      cases name? <;> rfl

/-- Record who calls whom inside a component, and remember the call if it is part of a state
update. -/
def noteCall (evidence : Evidence) (node : Node) : Strict Evidence := do
  let (component?, evidence) ← component? source conventions evidence node
  if component?.isNone then return evidence
  let component ← need component?
  let callee? ← invokedName? source node
  if callee?.isNone then return evidence
  let flow ← noteCaller evidence.flow component (← enclosingFunction? source node) callee?
  if (← enclosingUpdate? source node).isNone then return { evidence with flow }
  let use : HelperUse := ⟨component.span, ← need callee?, node⟩
  return { evidence with flow, helperUses := evidence.helperUses ++ [use] }

@[simp] theorem noteCall_eq (evidence : Evidence) (node : Node) :
    noteCall source conventions evidence node =
      pure (evidence.noteCall source conventions node) := by
  rw [noteCall, Evidence.noteCall, component?_eq, pure_bind]
  obtain ⟨component?, evidence⟩ := evidence.component? source conventions node
  cases component? with
  | none => rfl
  | some component =>
      simp only [invokedName?_eq, enclosingFunction?_eq, enclosingUpdate?_eq, need_some, pure_bind]
      cases node.invokedName? source with
      | none => rfl
      | some callee =>
          simp only [noteCaller_eq, need_some, pure_bind]
          cases node.enclosingUpdate? source <;> rfl

/-- Remember the use of an identifier that stands for an object in a state update. -/
def noteIdentifier (evidence : Evidence) (node : Node) : Strict Evidence := do
  let operation ← outermostOperation node
  if !(← standsForObject operation) then return evidence
  if (← enclosingUpdate? source operation).isNone then return evidence
  let (scope, evidence) ← scope source evidence node
  let use : BindingUse := ⟨scope, node.text source, node⟩
  return { evidence with bindingUses := evidence.bindingUses ++ [use] }

@[simp] theorem noteIdentifier_eq (evidence : Evidence) (node : Node) :
    noteIdentifier source evidence node = pure (evidence.noteIdentifier source node) := by
  simp only [noteIdentifier, Evidence.noteIdentifier, outermostOperation_eq, standsForObject_eq,
    enclosingUpdate?_eq, scope_eq, pure_bind]
  cases node.outermostOperation.standsForObject with
  | false => rfl
  | true => cases node.outermostOperation.enclosingUpdate? source <;> rfl

/-- Record the identifiers that one property of the instance binds to the state, if it is the
state that the property takes. -/
def noteProperty (evidence : Evidence) (property : Node) : Strict Evidence := do
  let (key?, pattern?) ← stateProperty source property
  if key?.isNone then return evidence
  bindPattern source evidence (← need key?).span pattern?

theorem noteProperty_eq (evidence : Evidence) (property : Node) :
    noteProperty source evidence property =
      pure (match TakenProperty.state? source property with
        | some taken => evidence.bindPattern source taken.key.span taken.pattern?
        | none => evidence) := by
  rw [noteProperty, stateProperty_eq, pure_bind]
  cases TakenProperty.state? source property with
  | none => rfl
  | some taken => exact bindPattern_eq source evidence taken.key.span taken.pattern?

theorem foldlM_noteProperty (evidence : Evidence) (properties : List Node) :
    properties.foldlM (noteProperty source) evidence =
      pure ((properties.filterMap (TakenProperty.state? source)).foldl
        (fun evidence taken => evidence.bindPattern source taken.key.span taken.pattern?)
        evidence) := by
  induction properties generalizing evidence with
  | nil => rfl
  | cons property rest ih =>
      rw [List.foldlM_cons, noteProperty_eq, pure_bind, ih, List.filterMap_cons]
      cases TakenProperty.state? source property <;> rfl

/-- Record the identifiers that take the state from the instance inside a component. -/
def noteDeclarator (evidence : Evidence) (node : Node) : Strict Evidence := do
  let declarator? := Declarator.ofNode? node
  if declarator?.isNone then return evidence
  let declarator ← need declarator?
  if !(← isThis declarator.value?) then return evidence
  if declarator.pattern?.isNone then return evidence
  let pattern ← need declarator.pattern?
  if pattern.kind != "object_pattern" then return evidence
  let (component?, evidence) ← component? source conventions evidence node
  if component?.isNone then return evidence
  pattern.namedChildren.foldlM (noteProperty source) evidence

@[simp] theorem noteDeclarator_eq (evidence : Evidence) (node : Node) :
    noteDeclarator source conventions evidence node =
      pure (evidence.noteDeclarator source conventions node) := by
  rw [noteDeclarator, Evidence.noteDeclarator, TakenProperty.fromThis?, component?_eq]
  obtain ⟨component?, next⟩ := evidence.component? source conventions node
  cases Declarator.ofNode? node with
  | none => rfl
  | some declarator =>
      obtain ⟨_, pattern?, value?⟩ := declarator
      cases value? with
      | none => rfl
      | some value =>
          cases pattern? with
          | none => simp
          | some pattern =>
              by_cases isThis : value.isThis
              · by_cases apart : pattern.kind = "object_pattern"
                · cases component? <;> simp [isThis, apart, foldlM_noteProperty]
                · simp [isThis, apart]
              · simp [isThis]

/-- Note what one node shows. -/
def note (evidence : Evidence) (node : Node) : Strict Evidence := do
  if node.kind == "member_expression" then
    noteRead source conventions evidence node
  else if node.kind == "call_expression" then
    noteCall source conventions evidence node
  else if node.kind == "identifier" || node.kind == "shorthand_property_identifier" then
    noteIdentifier source evidence node
  else if node.kind == "variable_declarator" then
    noteDeclarator source conventions evidence node
  else
    return evidence

@[simp] theorem note_eq (evidence : Evidence) (node : Node) :
    note source conventions evidence node = pure (evidence.note source conventions node) := by
  simp [note, Evidence.note, pure_ite]

/-! ## Judgement -/

/-- Report a call against each read of its callee. -/
def judgeCall (evidence : Evidence) (call : HelperUse) : Strict Evidence :=
  (evidence.flow.readsOfMethod call.component (some call.callee)).foldlM
    (fun evidence fact => flag source evidence fact.read (some call.node.span)) evidence

theorem judgeCall_eq (evidence : Evidence) (call : HelperUse) :
    judgeCall source evidence call = pure (evidence.judgeCall source call) :=
  foldlM_eq (fun _ _ => flag_eq ..) evidence _

/-- Report a use against each read that its binding holds. -/
def judgeUse (evidence : Evidence) (use : BindingUse) : Strict Evidence :=
  (evidence.flow.readsOfBinding use.scope (some use.name)).foldlM
    (fun evidence fact => flag source evidence fact.read (some use.node.span)) evidence

theorem judgeUse_eq (evidence : Evidence) (use : BindingUse) :
    judgeUse source evidence use = pure (evidence.judgeUse source use) :=
  foldlM_eq (fun _ _ => flag_eq ..) evidence _

/-- Close the facts over calls. -/
def closeFlow (evidence : Evidence) : Strict Evidence := do
  return { evidence with flow := (← close evidence.flow).2 }

@[simp] theorem closeFlow_eq (evidence : Evidence) : closeFlow evidence = pure evidence.close := by
  rw [closeFlow, close_eq, pure_bind, Evidence.close]

/-- Report all remembered calls, then all remembered uses. -/
def judge (evidence : Evidence) : Strict Evidence := do
  let evidence ← evidence.helperUses.foldlM (judgeCall source) evidence
  evidence.bindingUses.foldlM (judgeUse source) evidence

@[simp] theorem judge_eq (evidence : Evidence) :
    judge source evidence = pure (evidence.judge source) := by
  rw [judge, foldlM_eq (judgeCall_eq source), pure_bind, foldlM_eq (judgeUse_eq source),
    Evidence.judge]

/-- All that is known of a tree in the end. -/
def ofTree (file : String) (tree : Tree) : Strict Evidence := do
  let noted ← (stackWalk tree).foldlM (note source conventions) (Evidence.initial file tree)
  judge source (← closeFlow noted)

@[simp] theorem ofTree_eq (file : String) (tree : Tree) :
    ofTree source conventions file tree = pure (Evidence.ofTree source conventions file tree) := by
  rw [ofTree, foldlM_eq (note_eq source conventions), pure_bind, closeFlow_eq, pure_bind,
    judge_eq]
  rfl

/-- The findings in a file, by position. -/
def lint (file : String) (tree : Tree) : Strict (List Finding) := do
  return (← ofTree source conventions file tree).log.sorted

/-- Every step of the analysis is defined, whatever the tree, the conventions and the source
are, and it comes to the findings of `lint`. -/
theorem lint_eq_ok (file : String) (tree : Tree) :
    lint source conventions file tree = .ok (StaleRead.lint source conventions file tree) := by
  rw [lint, ofTree_eq, pure_bind]
  rfl

end StaleRead.Strict
