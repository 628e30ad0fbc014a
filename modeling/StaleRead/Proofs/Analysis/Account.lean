import StaleRead.Proofs.Analysis.Flagged
import StaleRead.Proofs.Analysis.Inert

/-! # Each read is accounted for once

The nearest role of a read decides alone what becomes of it. A read in a state update is
reported once, on its own account. A read in a named function is one fact about that
function, and is reported for calls only; a read in the value of a declarator is one fact
for each name that the declarator binds, and is reported for uses only. A read without a
role, outside of a component or on the left of an assignment leaves no trace. Reports, both
kinds of facts and the closure over calls never add to this, nor does a declarator that
takes the state from the instance (`Node.exists_account`).
-/

namespace StaleRead

namespace Evidence

/-- What is known when all nodes of a tree were visited, before the facts are closed. -/
def collected (source : Source) (conventions : Conventions) (file : String) (tree : Tree) :
    Evidence :=
  (initial file tree).noteAll source conventions (stackWalk tree)

/-- The logged pairs with a given read. -/
def pairsAt (evidence : Evidence) (read : Span) : List (Span × Option Span) :=
  evidence.log.seen.filter (·.1 == read)

/-- The recorded reads of methods at a given node. -/
def methodReadsAt (evidence : Evidence) (read : Span) : List MethodRead :=
  evidence.flow.methodReads.filter (·.read == read)

/-- The recorded reads of bindings at a given node. -/
def bindingReadsAt (evidence : Evidence) (read : Span) : List BindingRead :=
  evidence.flow.bindingReads.filter (·.read == read)

end Evidence

/-- What is recorded and reported of a node that spells a read of the state, by the component
it is in and its role there: the facts before and after they are closed over calls, and the
logged pairs in the end. -/
inductive Node.Accounted (source : Source) (tree : Tree) (before after : Evidence)
    (read : Node) : Option (Component × ReadRole) → Prop
  /-- A read in a state update is reported once and is no fact. -/
  | update {component : Component} {call : StateUpdate}
      (pairs : after.pairsAt read.span = [(read.span, none)])
      (methods : after.methodReadsAt read.span = [])
      (bindings : after.bindingReadsAt read.span = []) :
      Accounted source tree before after read (some (component, .update call))
  /-- A read in a named function is one fact about it, and is reported for calls. -/
  | function {component : Component} {definition : NamedFunction}
      (methods : before.methodReadsAt read.span =
        [⟨component.span, definition.name?, read.span⟩])
      (bindings : after.bindingReadsAt read.span = [])
      (pairs : ∀ pair ∈ after.pairsAt read.span, ∃ call ∈ tree.nodes,
        call.kind = "call_expression" ∧ call.InUpdate source ∧ pair.2 = some call.span) :
      Accounted source tree before after read (some (component, .function definition))
  /-- A read in the value of a declarator is one fact for each scope and name that the
  pattern binds, and is reported for uses. -/
  | binding {component : Component} {declarator : Declarator}
      (once : (after.bindingReadsAt read.span).Nodup)
      (bindings : ∀ fact, fact ∈ after.bindingReadsAt read.span ↔
        ∃ binding : Node, binding.BoundBy declarator.pattern? ∧
          fact = binding.bindingRead source tree read.span)
      (methods : after.methodReadsAt read.span = [])
      (pairs : ∀ pair ∈ after.pairsAt read.span, ∃ use ∈ tree.nodes,
        use.UsedInUpdate source ∧ pair.2 = some use.span) :
      Accounted source tree before after read (some (component, .binding declarator))
  /-- Any other read is no fact and is not reported. -/
  | nothing (pairs : after.pairsAt read.span = [])
      (methods : after.methodReadsAt read.span = [])
      (bindings : after.bindingReadsAt read.span = []) :
      Accounted source tree before after read none

variable {source : Source} {conventions : Conventions} {file : String} {tree : Tree} {node : Node}

namespace Node

/-- The component and the role that account for a node. -/
def account? (source : Source) (conventions : Conventions) (node : Node) :
    Option (Component × ReadRole) :=
  if node.readsState source then
    (Component.around? source conventions node).bind fun component =>
      (ReadRole.of? source node).map fun role => (component, role)
  else
    none

theorem account?_eq_some_iff (distinct : tree.SpansDistinct) (inside : node ∈ tree.nodes)
    (component : Component) (role : ReadRole) :
    node.account? source conventions = some (component, role) ↔
      node.ReadsIn source conventions component role := by
  have nearest := ReadRole.of?_eq_some_iff source distinct inside role
  rw [account?, Option.ite_none_right_eq_some, Option.bind_eq_some_iff]
  constructor
  · rintro ⟨reads, other, sits, found⟩
    obtain ⟨plays, played, same⟩ := Option.map_eq_some_iff.mp found
    obtain ⟨rfl, rfl⟩ := Prod.mk.inj same
    exact ⟨reads, sits, nearest.mp played⟩
  · rintro ⟨reads, sits, nearer⟩
    exact ⟨reads, component, sits, Option.map_eq_some_iff.mpr ⟨role, nearest.mpr nearer, rfl⟩⟩

theorem account?_eq_none_of_assigned (assigned : node.isAssigned = true) :
    node.account? source conventions = none := by
  have noRead : ¬ node.readsState source = true := by simp [readsState, assigned]
  rw [account?, if_neg noRead]

theorem account?_eq_none_of_outside
    (outside : Component.around? source conventions node = none) :
    node.account? source conventions = none := by
  rw [account?, outside, Option.bind_none, ite_self]

theorem isAssigned_of_left {parent : Node} (sits : node.parent? = some parent)
    (kind : parent.kind = "assignment_expression" ∨
      parent.kind = "augmented_assignment_expression")
    (left : parent.child? "left" = some node) : node.isAssigned = true := by
  rw [isAssigned, sits, Option.any_some, left, Option.any_some, beq_self_eq_true, Bool.and_true]
  simpa using kind

/-- What a node shows by its account. -/
def AccountShows (source : Source) (tree : Tree) (node : Node) (sign : Sign) :
    Option (Component × ReadRole) → Prop
  | some (component, role) => role.Shows source tree component.span node.span sign
  | none => False

/-- The signs that say something of a member access are those that it shows by its
account: a name that takes the state from the instance has another span. -/
theorem shows_iff_accountShows (distinct : tree.SpansDistinct) (inside : node ∈ tree.nodes)
    (kind : node.kind = "member_expression") {sign : Sign} (marks : sign.Marks node.span) :
    tree.Shows source conventions sign ↔
      node.AccountShows source tree sign (node.account? source conventions) := by
  have own : tree.Shows source conventions sign ↔ node.Shows source conventions tree sign := by
    refine ⟨?_, fun shown => ⟨node, inside, shown⟩⟩
    rintro ⟨other, otherInside, shown⟩
    have here : other.span = node.span → node.Shows source conventions tree sign := by
      intro same
      rwa [← distinct.eq_of_span_eq otherInside inside same]
    cases shown with
    | finding => exact here marks
    | methodRead => exact here marks
    | value => exact here marks
    | @taken component property binding takes _ =>
        -- The key is a name, and a node with its span would be of its kind.
        obtain ⟨properties, takes, member⟩ := takes.takes
        have keyKind := TakenProperty.kind_key_of_fromThis? takes member
        have sameKind : property.key.kind = node.kind := congrArg Span.kind marks
        rw [sameKind, kind] at keyKind
        exact absurd keyKind (by decide)
    | methodCall => exact marks.elim
    | helperUse => exact marks.elim
    | bindingUse => exact marks.elim
  rw [own]
  cases account : node.account? source conventions with
  | none =>
      refine iff_of_false (fun shown => ?_) id
      obtain ⟨component, role, reads, _⟩ := (shows_iff_of_member kind).mp shown
      cases account.symm.trans ((account?_eq_some_iff distinct inside _ _).mpr reads)
  | some pair =>
      exact ((account?_eq_some_iff distinct inside _ _).mp account).shows_iff distinct inside

end Node

theorem eq_singleton_of_nodup {α : Type} {elements : List α} {a : α}
    (nodup : elements.Nodup) (only : ∀ b, b ∈ elements ↔ b = a) : elements = [a] := by
  have perm : elements.Perm [a] := by
    rw [List.perm_ext_iff_of_nodup nodup (List.nodup_singleton a)]
    simpa using only
  exact List.perm_singleton.mp perm

namespace Evidence

theorem mem_pairsAt {evidence : Evidence} {read : Span} {pair : Span × Option Span} :
    pair ∈ evidence.pairsAt read ↔ pair ∈ evidence.log.seen ∧ pair.1 = read := by
  rw [pairsAt, List.mem_filter, beq_iff_eq]

theorem mem_methodReadsAt {evidence : Evidence} {read : Span} {fact : MethodRead} :
    fact ∈ evidence.methodReadsAt read ↔ fact ∈ evidence.flow.methodReads ∧ fact.read = read := by
  rw [methodReadsAt, List.mem_filter, beq_iff_eq]

theorem mem_bindingReadsAt {evidence : Evidence} {read : Span} {fact : BindingRead} :
    fact ∈ evidence.bindingReadsAt read ↔
      fact ∈ evidence.flow.bindingReads ∧ fact.read = read := by
  rw [bindingReadsAt, List.mem_filter, beq_iff_eq]

theorem holds_collected (source : Source) (conventions : Conventions) (file : String)
    (distinct : tree.SpansDistinct) :
    (collected source conventions file tree).Holds = tree.Shows source conventions := by
  rw [collected, stackWalk_eq_nodes]
  exact holds_noteAll_iff source conventions file distinct (List.Subset.refl _)

theorem coherent_collected (source : Source) (conventions : Conventions) (file : String)
    (distinct : tree.SpansDistinct) :
    (collected source conventions file tree).Coherent source conventions file tree := by
  rw [collected, stackWalk_eq_nodes]
  exact ((coherent_initial source conventions file tree).noteAll distinct
    (List.Subset.refl _)).coherent

theorem flow_ofTree (source : Source) (conventions : Conventions) (file : String) (tree : Tree) :
    (ofTree source conventions file tree).flow =
      (collected source conventions file tree).flow.close.2 :=
  flow_judge source _

theorem coherent_ofTree (source : Source) (conventions : Conventions) (file : String)
    (distinct : tree.SpansDistinct) :
    (ofTree source conventions file tree).Coherent source conventions file tree :=
  (coherent_collected source conventions file distinct).close.judge

/-- The closure over calls adds no first fact about a read. -/
theorem methodReadsAt_ofTree_eq_nil (distinct : tree.SpansDistinct) {read : Span}
    (none : (collected source conventions file tree).methodReadsAt read = []) :
    (ofTree source conventions file tree).methodReadsAt read = [] := by
  rw [List.eq_nil_iff_forall_not_mem] at none ⊢
  intro fact member
  obtain ⟨recorded, here⟩ := mem_methodReadsAt.mp member
  have coherent := coherent_collected source conventions file distinct
  rw [flow_ofTree, coherent.flow.mem_close_methodReads] at recorded
  rcases recorded with known | ⟨caller, callee, _, known, _⟩
  · exact none fact (mem_methodReadsAt.mpr ⟨known, here⟩)
  · exact none _ (mem_methodReadsAt.mpr ⟨known, here⟩)

/-- A pair with a given read is logged exactly if there is a verdict on it. -/
theorem mem_pairsAt_ofTree_iff (distinct : tree.SpansDistinct) {read : Span}
    {pair : Span × Option Span} :
    pair ∈ (ofTree source conventions file tree).pairsAt read ↔
      pair.1 = read ∧ Verdict (tree.Shows source conventions) pair := by
  have coherent := coherent_collected source conventions file distinct
  rw [mem_pairsAt, and_comm, ← holds_collected source conventions file distinct]
  exact and_congr_right fun _ => coherent.mem_seen_judge_close_iff pair

section Account

variable (distinct : tree.SpansDistinct) (inside : node ∈ tree.nodes)
  (kind : node.kind = "member_expression")

include distinct inside kind

/-- Of a member access, the collected evidence holds what its account shows. -/
theorem holds_collected_iff {sign : Sign} (marks : sign.Marks node.span) :
    (collected source conventions file tree).Holds sign ↔
      node.AccountShows source tree sign (node.account? source conventions) := by
  rw [holds_collected source conventions file distinct]
  exact Node.shows_iff_accountShows distinct inside kind marks

theorem mem_methodReadsAt_collected_iff {fact : MethodRead} :
    fact ∈ (collected source conventions file tree).methodReadsAt node.span ↔
      fact.read = node.span ∧
        node.AccountShows source tree (.methodRead fact) (node.account? source conventions) := by
  rw [mem_methodReadsAt, and_comm]
  apply and_congr_right
  intro here
  have marks : (Sign.methodRead fact).Marks node.span := here
  exact holds_collected_iff distinct inside kind marks

theorem mem_bindingReadsAt_ofTree_iff {fact : BindingRead} :
    fact ∈ (ofTree source conventions file tree).bindingReadsAt node.span ↔
      fact.read = node.span ∧
        node.AccountShows source tree (.bindingRead fact) (node.account? source conventions) := by
  rw [mem_bindingReadsAt, flow_ofTree, Flow.close_bindingReads, and_comm]
  apply and_congr_right
  intro here
  have marks : (Sign.bindingRead fact).Marks node.span := here
  exact holds_collected_iff distinct inside kind marks

/-- What a pair with the read of a member access is logged for: the read itself, if its
account reports it; a call, if its account is a method; a use, if its account is a binding. -/
theorem mem_pairsAt_ofTree_cases {pair : Span × Option Span}
    (logged : pair ∈ (ofTree source conventions file tree).pairsAt node.span) :
    (pair = (node.span, none) ∧ ∃ component update,
      node.account? source conventions = some (component, .update update)) ∨
    ((∃ call ∈ tree.nodes, call.kind = "call_expression" ∧ call.InUpdate source ∧
      pair.2 = some call.span) ∧ ∃ component definition,
        node.account? source conventions = some (component, .function definition)) ∨
    ((∃ use ∈ tree.nodes, use.UsedInUpdate source ∧ pair.2 = some use.span) ∧
      ∃ component declarator,
        node.account? source conventions = some (component, .binding declarator)) := by
  -- Each kind of verdict needs a sign of the read, and the account allows only one kind.
  obtain ⟨here, verdict⟩ := (mem_pairsAt_ofTree_iff distinct).mp logged
  cases verdict with
  | @direct read site? found =>
      have marks : (Sign.finding read site?).Marks node.span := here
      rw [Node.shows_iff_accountShows distinct inside kind marks] at found
      match account : node.account? source conventions, found with
      | some (component, .update update), shown =>
          cases shown
          exact Or.inl ⟨rfl, component, update, rfl⟩
      | some (_, .function _), shown => cases shown
      | some (_, .binding _), ⟨_, _, shown⟩ => cases shown
  | @helper use reader read waits _ reads =>
      obtain ⟨call, callInside, caller, _, calls, updates, rfl⟩ :=
        Tree.shows_helperUse_iff.mp waits
      have marks : (Sign.methodRead ⟨caller.span, some reader, read⟩).Marks node.span := here
      rw [Node.shows_iff_accountShows distinct inside kind marks] at reads
      match account : node.account? source conventions, reads with
      | some (_, .update _), shown => cases shown
      | some (component, .function definition), _ =>
          exact Or.inr (Or.inl ⟨⟨call, callInside, calls.kind, updates, rfl⟩,
            component, definition, rfl⟩)
      | some (_, .binding _), ⟨_, _, shown⟩ => cases shown
  | @identifier use read waits held =>
      obtain ⟨site, siteInside, uses, rfl⟩ := Tree.shows_bindingUse_iff.mp waits
      have marks : (Sign.bindingRead
        ⟨(site.homeScope source tree).span, site.text source, read⟩).Marks node.span := here
      rw [Node.shows_iff_accountShows distinct inside kind marks] at held
      match account : node.account? source conventions, held with
      | some (_, .update _), shown => cases shown
      | some (_, .function _), shown => cases shown
      | some (component, .binding declarator), _ =>
          exact Or.inr (Or.inr ⟨⟨site, siteInside, uses, rfl⟩, component, declarator, rfl⟩)

theorem methodReadsAt_collected_eq_nil
    (noMethod : ∀ fact : MethodRead, fact.read = node.span →
      ¬ node.AccountShows source tree (.methodRead fact) (node.account? source conventions)) :
    (collected source conventions file tree).methodReadsAt node.span = [] := by
  rw [List.eq_nil_iff_forall_not_mem]
  intro fact member
  obtain ⟨here, shown⟩ := (mem_methodReadsAt_collected_iff distinct inside kind).mp member
  exact noMethod fact here shown

theorem bindingReadsAt_ofTree_eq_nil
    (noBinding : ∀ fact : BindingRead, fact.read = node.span →
      ¬ node.AccountShows source tree (.bindingRead fact) (node.account? source conventions)) :
    (ofTree source conventions file tree).bindingReadsAt node.span = [] := by
  rw [List.eq_nil_iff_forall_not_mem]
  intro fact member
  obtain ⟨here, shown⟩ := (mem_bindingReadsAt_ofTree_iff distinct inside kind).mp member
  exact noBinding fact here shown

theorem pairsAt_ofTree_of_update {component : Component} {call : StateUpdate}
    (account : node.account? source conventions = some (component, .update call)) :
    (ofTree source conventions file tree).pairsAt node.span = [(node.span, none)] := by
  have log := (coherent_ofTree source conventions file distinct).log
  refine eq_singleton_of_nodup (log.nodup.filter _) fun pair => ⟨fun logged => ?_, ?_⟩
  · rcases mem_pairsAt_ofTree_cases distinct inside kind logged with
      ⟨same, _⟩ | ⟨_, _, _, other⟩ | ⟨_, _, _, other⟩
    · exact same
    · cases account.symm.trans other
    · cases account.symm.trans other
  · rintro rfl
    have marks : (Sign.finding node.span none).Marks node.span := rfl
    refine (mem_pairsAt_ofTree_iff distinct).mpr ⟨rfl, .direct ?_⟩
    rw [Node.shows_iff_accountShows distinct inside kind marks, account]
    rfl

theorem pairsAt_ofTree_eq_nil (account : node.account? source conventions = none) :
    (ofTree source conventions file tree).pairsAt node.span = [] := by
  rw [List.eq_nil_iff_forall_not_mem]
  intro pair logged
  rcases mem_pairsAt_ofTree_cases distinct inside kind logged with
    ⟨_, _, _, other⟩ | ⟨_, _, _, other⟩ | ⟨_, _, _, other⟩ <;>
    cases account.symm.trans other

theorem accounted_of_none (file : String) (account : node.account? source conventions = none) :
    node.Accounted source tree (collected source conventions file tree)
      (ofTree source conventions file tree) none := by
  refine .nothing (pairsAt_ofTree_eq_nil distinct inside kind account) ?_ ?_
  · apply methodReadsAt_ofTree_eq_nil distinct
    apply methodReadsAt_collected_eq_nil distinct inside kind
    rw [account]
    exact fun _ _ => id
  · apply bindingReadsAt_ofTree_eq_nil distinct inside kind
    rw [account]
    exact fun _ _ => id

theorem accounted_of_update (file : String) {component : Component} {call : StateUpdate}
    (account : node.account? source conventions = some (component, .update call)) :
    node.Accounted source tree (collected source conventions file tree)
      (ofTree source conventions file tree) (some (component, .update call)) := by
  refine .update (pairsAt_ofTree_of_update distinct inside kind account) ?_ ?_
  · apply methodReadsAt_ofTree_eq_nil distinct
    apply methodReadsAt_collected_eq_nil distinct inside kind
    rw [account]
    exact fun _ _ => nofun
  · apply bindingReadsAt_ofTree_eq_nil distinct inside kind
    rw [account]
    exact fun _ _ => nofun

theorem accounted_of_function (file : String) {component : Component}
    {definition : NamedFunction}
    (account : node.account? source conventions = some (component, .function definition)) :
    node.Accounted source tree (collected source conventions file tree)
      (ofTree source conventions file tree) (some (component, .function definition)) := by
  have nodup := (coherent_collected source conventions file distinct).flow.methodReads_nodup
  refine .function ?_ ?_ fun pair logged => ?_
  · refine eq_singleton_of_nodup (nodup.filter _) fun fact => ?_
    refine (mem_methodReadsAt_collected_iff distinct inside kind).trans ?_
    rw [account]
    constructor
    · rintro ⟨_, shown⟩
      exact Sign.methodRead.inj shown
    · rintro rfl
      exact ⟨rfl, rfl⟩
  · apply bindingReadsAt_ofTree_eq_nil distinct inside kind
    rw [account]
    exact fun _ _ => nofun
  · rcases mem_pairsAt_ofTree_cases distinct inside kind logged with
      ⟨_, _, _, other⟩ | ⟨called, _⟩ | ⟨_, _, _, other⟩
    · cases account.symm.trans other
    · exact called
    · cases account.symm.trans other

theorem accounted_of_binding (file : String) {component : Component} {declarator : Declarator}
    (account : node.account? source conventions = some (component, .binding declarator)) :
    node.Accounted source tree (collected source conventions file tree)
      (ofTree source conventions file tree) (some (component, .binding declarator)) := by
  have nodup := (coherent_ofTree source conventions file distinct).flow.bindingReads_nodup
  refine .binding (nodup.filter _) (fun fact => ?_) ?_ fun pair logged => ?_
  · refine (mem_bindingReadsAt_ofTree_iff distinct inside kind).trans ?_
    rw [account]
    constructor
    · rintro ⟨_, binding, bound, same⟩
      exact ⟨binding, bound, Sign.bindingRead.inj same⟩
    · rintro ⟨binding, bound, rfl⟩
      exact ⟨rfl, binding, bound, rfl⟩
  · apply methodReadsAt_ofTree_eq_nil distinct
    apply methodReadsAt_collected_eq_nil distinct inside kind
    rw [account]
    rintro _ _ ⟨_, _, other⟩
    cases other
  · rcases mem_pairsAt_ofTree_cases distinct inside kind logged with
      ⟨_, _, _, other⟩ | ⟨_, _, _, other⟩ | ⟨used, _⟩
    · cases account.symm.trans other
    · cases account.symm.trans other
    · exact used

/-- What is collected and reported of a member access is what its account says. -/
theorem accounted (source : Source) (conventions : Conventions) (file : String) :
    node.Accounted source tree (collected source conventions file tree)
      (ofTree source conventions file tree) (node.account? source conventions) := by
  match account : node.account? source conventions with
  | none => exact accounted_of_none distinct inside kind file account
  | some (_, .update _) => exact accounted_of_update distinct inside kind file account
  | some (_, .function _) => exact accounted_of_function distinct inside kind file account
  | some (_, .binding _) => exact accounted_of_binding distinct inside kind file account

end Account

/-- Each logged pair is one finding, at its read. -/
theorem lint_perm (source : Source) (conventions : Conventions) (file : String)
    (distinct : tree.SpansDistinct) :
    (lint source conventions file tree).Perm
      ((ofTree source conventions file tree).log.seen.map fun pair =>
        Finding.ofSpan source file .useCallback pair.1) := by
  have coherent := coherent_ofTree source conventions file distinct
  have listed := coherent.log.findings
  rw [coherent.file, List.map_map, List.map_reverse] at listed
  rw [lint, FindingLog.sorted]
  refine (sortBy_perm _ _).trans ?_
  rw [listed]
  exact List.reverse_perm _

end Evidence

/-- **Each read of the state is accounted for once.** Where no two nodes of a tree have one
span, each access of the state has one account: the component around it and its nearest
role there, or none, as for the left side of an assignment and outside of components. What
is recorded and reported of the access is what its account says, and each logged pair is
one finding. -/
theorem Node.exists_account (source : Source) (conventions : Conventions) (file : String)
    (distinct : tree.SpansDistinct) (inside : node ∈ tree.nodes)
    (accesses : node.isMemberOfThis source "state" = true) :
    ∃ account : Option (Component × ReadRole),
      (∀ component role, account = some (component, role) ↔
        node.ReadsIn source conventions component role) ∧
      node.Accounted source tree (Evidence.collected source conventions file tree)
        (Evidence.ofTree source conventions file tree) account ∧
      ((∃ parent, node.parent? = some parent ∧
        (parent.kind = "assignment_expression" ∨
          parent.kind = "augmented_assignment_expression") ∧
        parent.child? "left" = some node) → account = none) ∧
      (Component.around? source conventions node = none → account = none) ∧
      (lint source conventions file tree).Perm
        ((Evidence.ofTree source conventions file tree).log.seen.map fun pair =>
          Finding.ofSpan source file .useCallback pair.1) := by
  have kind : node.kind = "member_expression" := by
    rw [isMemberOfThis, Bool.and_eq_true, Bool.and_eq_true, beq_iff_eq] at accesses
    exact accesses.1.1
  refine ⟨node.account? source conventions, account?_eq_some_iff distinct inside,
    Evidence.accounted distinct inside kind source conventions file, ?_,
    account?_eq_none_of_outside, Evidence.lint_perm source conventions file distinct⟩
  rintro ⟨parent, sits, parentKind, left⟩
  exact account?_eq_none_of_assigned (isAssigned_of_left sits parentKind left)

theorem methodReadsAt_helperTree :
    (helperTree.SpansDistinct ∧ helperTree.nodes[18] ∈ helperTree.nodes ∧
      helperTree.nodes[18].isMemberOfThis helperSource "state" = true) ∧
    (Evidence.collected helperSource plainConventions "a.js" helperTree).methodReadsAt
        helperTree.nodes[18].span =
      [⟨⟨0, 69, "class_declaration"⟩, some "h", ⟨57, 67, "member_expression"⟩⟩] := by
  have inside : helperTree.nodes[18] ∈ helperTree.nodes := List.getElem_mem _
  have accesses : helperTree.nodes[18].isMemberOfThis helperSource "state" = true := by decide
  refine ⟨⟨spansDistinct_helperTree, inside, accesses⟩, ?_⟩
  have reads : helperTree.nodes[18].ReadsIn helperSource plainConventions
      ⟨helperTree.nodes[1], none, .classBody⟩ (.function ⟨helperTree.nodes[16], some "h"⟩) :=
    ⟨by decide, rfl, (ReadRole.of?_eq_some_iff helperSource spansDistinct_helperTree
      inside _).mp rfl⟩
  obtain ⟨account, role, accounted, _⟩ := Node.exists_account helperSource plainConventions "a.js"
    spansDistinct_helperTree inside accesses
  rw [(role _ _).mpr reads] at accounted
  cases accounted with
  | function methods => exact methods

end StaleRead
