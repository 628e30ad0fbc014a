import StaleRead.Proofs.Analysis.Verdict
import StaleRead.Proofs.Component

/-! # What is flagged

`Flagged` says which reads of a tree are to be reported and on account of which sites, in
terms of the tree alone: a read whose nearest role is that of a state update; a read in a
function that a call in a state update names or that its callee reaches; and a read that
an identifier in a state update is bound to. Where spans are distinct, the analysis logs
exactly the spans of the flagged pairs (`mem_seen_ofTree_iff`).
-/

namespace StaleRead

/-- A call in the component, with the caller as the nearest named function around it,
invokes the callee. -/
def Component.Calls (source : Source) (conventions : Conventions) (tree : Tree)
    (component : Component) (caller callee : String) : Prop :=
  ∃ call ∈ tree.nodes, call.CallsIn source conventions component callee ∧
    ∃ definition, call.enclosingFunction? source = some definition ∧
      definition.name? = some caller

/-- An identifier of a pattern is bound to the state that is read at a node. -/
inductive Node.BoundTo (source : Source) (conventions : Conventions) (tree : Tree) :
    Node → Node → Prop
  /-- The read is accounted for by a declarator with the pattern. -/
  | value {binding read : Node} {component : Component} {declarator : Declarator}
      (inside : read ∈ tree.nodes)
      (reads : read.ReadsIn source conventions component (.binding declarator))
      (bound : binding.BoundBy declarator.pattern?) :
      BoundTo source conventions tree binding read
  /-- A declarator takes the state from the instance at its key. -/
  | taken {binding declarator : Node} {component : Component} {property : TakenProperty}
      (inside : declarator ∈ tree.nodes)
      (takes : declarator.TakesIn source conventions component property)
      (bound : binding.BoundBy property.pattern?) :
      BoundTo source conventions tree binding property.key

/-- A read is to be reported, possibly on account of a site. -/
inductive Flagged (source : Source) (conventions : Conventions) (tree : Tree) :
    Node → Option Node → Prop
  /-- A read in a component is reported if a state update accounts for it. -/
  | direct {read : Node} {component : Component} {update : StateUpdate}
      (inside : read ∈ tree.nodes)
      (reads : read.ReadsIn source conventions component (.update update)) :
      Flagged source conventions tree read none
  /-- A call that is part of a state update is reported against each read in a function
  of the same component that its callee is or reaches through calls. -/
  | helper {read site : Node} {component : Component} {definition : NamedFunction}
      {callee reader : String} (inside : read ∈ tree.nodes)
      (reads : read.ReadsIn source conventions component (.function definition))
      (named : definition.name? = some reader) (siteInside : site ∈ tree.nodes)
      (calls : site.CallsIn source conventions component callee)
      (updates : site.InUpdate source)
      (chain : Relation.ReflTransGen (component.Calls source conventions tree) callee reader) :
      Flagged source conventions tree read (some site)
  /-- An identifier that is part of a state update is reported against each read that a
  binding of its name in its scope is bound to. -/
  | identifier {read binding site : Node} (bound : binding.BoundTo source conventions tree read)
      (siteInside : site ∈ tree.nodes) (uses : site.UsedInUpdate source)
      (scope : site.homeScope source tree = binding.homeScope source tree)
      (name : site.text source = binding.text source) :
      Flagged source conventions tree read (some site)

variable {source : Source} {conventions : Conventions} {tree : Tree}

theorem Node.BoundTo.binding_mem_nodes {binding read : Node}
    (bound : binding.BoundTo source conventions tree read) : binding ∈ tree.nodes := by
  cases bound with
  | value inside reads bound =>
      obtain ⟨pattern, hasPattern, member⟩ := bound
      exact mem_nodes_of_mem_bindings (reads.nearest.pattern?_mem_nodes inside hasPattern) member
  | taken inside takes bound =>
      obtain ⟨properties, takes, isTaken⟩ := takes.takes
      obtain ⟨pattern, hasPattern, member⟩ := bound
      have patternInside := (TakenProperty.mem_nodes_of_fromThis? inside takes isTaken).2 pattern
      exact mem_nodes_of_mem_bindings (patternInside hasPattern) member

/-- The sign is shown by some node of the tree. -/
def Tree.Shows (source : Source) (conventions : Conventions) (tree : Tree) (sign : Sign) : Prop :=
  ∃ node ∈ tree.nodes, node.Shows source conventions tree sign

namespace Tree

theorem shows_methodRead_iff {fact : MethodRead} :
    tree.Shows source conventions (.methodRead fact) ↔
      ∃ read ∈ tree.nodes, ∃ component definition,
        read.ReadsIn source conventions component (.function definition) ∧
          fact = ⟨component.span, definition.name?, read.span⟩ := by
  constructor
  · rintro ⟨read, inside, shown⟩
    cases shown with
    | methodRead reads => exact ⟨read, inside, _, _, reads, rfl⟩
  · rintro ⟨read, inside, component, definition, reads, rfl⟩
    exact ⟨read, inside, .methodRead reads⟩

theorem shows_bindingRead_iff {fact : BindingRead} :
    tree.Shows source conventions (.bindingRead fact) ↔
      ∃ binding read : Node, binding.BoundTo source conventions tree read ∧
        fact = binding.bindingRead source tree read.span := by
  constructor
  · rintro ⟨node, inside, shown⟩
    cases shown with
    | value reads bound => exact ⟨_, _, .value inside reads bound, rfl⟩
    | taken takes bound => exact ⟨_, _, .taken inside takes bound, rfl⟩
  · rintro ⟨binding, read, bound, rfl⟩
    cases bound with
    | value inside reads bound => exact ⟨_, inside, .value reads bound⟩
    | taken inside takes bound => exact ⟨_, inside, .taken takes bound⟩

theorem shows_methodCall_iff {call : MethodCall} :
    tree.Shows source conventions (.methodCall call) ↔
      ∃ node ∈ tree.nodes, ∃ component callee definition caller,
        node.CallsIn source conventions component callee ∧
          node.enclosingFunction? source = some definition ∧ definition.name? = some caller ∧
            call = ⟨component.span, caller, callee⟩ := by
  constructor
  · rintro ⟨node, inside, shown⟩
    cases shown with
    | methodCall calls within named => exact ⟨node, inside, _, _, _, _, calls, within, named, rfl⟩
  · rintro ⟨node, inside, component, callee, definition, caller, calls, within, named, rfl⟩
    exact ⟨node, inside, .methodCall calls within named⟩

theorem shows_helperUse_iff {use : HelperUse} :
    tree.Shows source conventions (.helperUse use) ↔
      ∃ site ∈ tree.nodes, ∃ component callee,
        site.CallsIn source conventions component callee ∧ site.InUpdate source ∧
          use = ⟨component.span, callee, site⟩ := by
  constructor
  · rintro ⟨site, inside, shown⟩
    cases shown with
    | helperUse calls updates => exact ⟨site, inside, _, _, calls, updates, rfl⟩
  · rintro ⟨site, inside, component, callee, calls, updates, rfl⟩
    exact ⟨site, inside, .helperUse calls updates⟩

theorem shows_bindingUse_iff {use : BindingUse} :
    tree.Shows source conventions (.bindingUse use) ↔
      ∃ site ∈ tree.nodes, site.UsedInUpdate source ∧
        use = ⟨(site.homeScope source tree).span, site.text source, site⟩ := by
  constructor
  · rintro ⟨site, inside, shown⟩
    cases shown with
    | bindingUse uses => exact ⟨site, inside, uses, rfl⟩
  · rintro ⟨site, inside, uses, rfl⟩
    exact ⟨site, inside, .bindingUse uses⟩

/-- The calls that are shown for a component are the calls in it. -/
theorem calls_shows_eq (distinct : tree.SpansDistinct) {node : Node} (inside : node ∈ tree.nodes)
    {component : Component} (sits : Component.around? source conventions node = some component) :
    Sign.Calls (tree.Shows source conventions) component.span =
      component.Calls source conventions tree := by
  funext caller callee
  rw [Sign.Calls, shows_methodCall_iff, eq_iff_iff]
  constructor
  · rintro ⟨call, callInside, other, _, definition, _, calls, within, named, same⟩
    obtain ⟨spans, rfl, rfl⟩ := MethodCall.mk.inj same
    obtain rfl := Component.eq_of_span_eq distinct inside callInside sits calls.sits spans
    exact ⟨call, callInside, calls, definition, within, named⟩
  · rintro ⟨call, callInside, calls, definition, within, named⟩
    exact ⟨call, callInside, component, callee, definition, caller, calls, within, named, rfl⟩

end Tree

/-- There is a verdict on what the nodes of a tree show exactly for the flagged pairs. -/
theorem verdict_iff_flagged (distinct : tree.SpansDistinct) (pair : Span × Option Span) :
    Verdict (tree.Shows source conventions) pair ↔
      ∃ read site?, Flagged source conventions tree read site? ∧
        pair = (read.span, site?.map Node.span) := by
  constructor
  · intro verdict
    cases verdict with
    | direct found =>
        obtain ⟨read, inside, shown⟩ := found
        cases shown with
        | finding reads => exact ⟨read, none, .direct inside reads, rfl⟩
    | helper waits chain reads =>
        obtain ⟨site, siteInside, component, callee, calls, updates, rfl⟩ :=
          Tree.shows_helperUse_iff.mp waits
        obtain ⟨read, inside, other, definition, readsIn, same⟩ :=
          Tree.shows_methodRead_iff.mp reads
        obtain ⟨spans, named, rfl⟩ := MethodRead.mk.inj same
        obtain rfl :=
          Component.eq_of_span_eq distinct siteInside inside calls.sits readsIn.sits spans
        rw [Tree.calls_shows_eq distinct siteInside calls.sits] at chain
        exact ⟨read, some site,
          .helper inside readsIn named.symm siteInside calls updates chain, rfl⟩
    | identifier waits held =>
        obtain ⟨site, siteInside, uses, rfl⟩ := Tree.shows_bindingUse_iff.mp waits
        obtain ⟨binding, read, bound, same⟩ := Tree.shows_bindingRead_iff.mp held
        obtain ⟨spans, name, rfl⟩ := BindingRead.mk.inj same
        have scope := distinct.eq_of_span_eq (Node.homeScope_mem_nodes source siteInside)
          (Node.homeScope_mem_nodes source bound.binding_mem_nodes) spans
        exact ⟨read, some site,
          .identifier bound siteInside uses scope (Option.some.inj name), rfl⟩
  · rintro ⟨read, site?, flagged, rfl⟩
    cases flagged with
    | direct inside reads => exact .direct ⟨read, inside, .finding reads⟩
    | helper inside reads named siteInside calls updates chain =>
        rw [← Tree.calls_shows_eq distinct siteInside calls.sits] at chain
        refine .helper (Tree.shows_helperUse_iff.mpr ⟨_, siteInside, _, _, calls, updates, rfl⟩)
          chain (Tree.shows_methodRead_iff.mpr ⟨read, inside, _, _, reads, ?_⟩)
        rw [named]
    | identifier bound siteInside uses scope name =>
        refine .identifier (Tree.shows_bindingUse_iff.mpr ⟨_, siteInside, uses, rfl⟩)
          (Tree.shows_bindingRead_iff.mpr ⟨_, read, bound, ?_⟩)
        rw [Node.bindingRead, scope, name]

/-- What is flagged is logged in the end. -/
theorem Flagged.logged {read : Node} {site? : Option Node}
    (flagged : Flagged source conventions tree read site?) (distinct : tree.SpansDistinct)
    (file : String) :
    (read.span, site?.map Node.span) ∈ (Evidence.ofTree source conventions file tree).log.seen := by
  rw [Evidence.ofTree, stackWalk_eq_nodes,
    Evidence.mem_seen_ofNodes_iff source conventions file distinct (List.Subset.refl _)]
  exact (verdict_iff_flagged distinct _).mpr ⟨read, site?, flagged, rfl⟩

/-- **The analysis reports what is flagged.** Where no two nodes of a tree have one span,
the pairs of a read and a site that are logged in the end are exactly the flagged ones. -/
theorem mem_seen_ofTree_iff (source : Source) (conventions : Conventions) (file : String)
    (distinct : tree.SpansDistinct) (pair : Span × Option Span) :
    pair ∈ (Evidence.ofTree source conventions file tree).log.seen ↔
      ∃ read site?, Flagged source conventions tree read site? ∧
        pair = (read.span, site?.map Node.span) := by
  rw [Evidence.ofTree, stackWalk_eq_nodes,
    Evidence.mem_seen_ofNodes_iff source conventions file distinct (List.Subset.refl _)]
  exact verdict_iff_flagged distinct pair

theorem mem_seen_helperTree :
    helperTree.SpansDistinct ∧
      (⟨57, 67, "member_expression"⟩, some ⟨36, 44, "call_expression"⟩) ∈
        (Evidence.ofTree helperSource plainConventions "a.js" helperTree).log.seen := by
  have reads : helperTree.nodes[18].ReadsIn helperSource plainConventions
      ⟨helperTree.nodes[1], none, .classBody⟩ (.function ⟨helperTree.nodes[16], some "h"⟩) :=
    ⟨by decide, rfl, (ReadRole.of?_eq_some_iff helperSource spansDistinct_helperTree
      (List.getElem_mem _) _).mp rfl⟩
  have calls : helperTree.nodes[12].CallsIn helperSource plainConventions
      ⟨helperTree.nodes[1], none, .classBody⟩ "h" :=
    ⟨by decide, rfl, by decide⟩
  have updates : helperTree.nodes[12].InUpdate helperSource :=
    (Node.enclosingUpdate?_isSome_iff helperSource spansDistinct_helperTree
      (List.getElem_mem _)).mp (by decide)
  have flagged : Flagged helperSource plainConventions helperTree helperTree.nodes[18]
      (some helperTree.nodes[12]) :=
    .helper (List.getElem_mem _) reads rfl (List.getElem_mem _) calls updates .refl
  exact ⟨spansDistinct_helperTree,
    (mem_seen_ofTree_iff _ _ _ spansDistinct_helperTree _).mpr ⟨_, _, flagged, rfl⟩⟩

end StaleRead
