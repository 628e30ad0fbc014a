import StaleRead.Analysis.Judgement
import StaleRead.Proofs.Analysis.Role
import StaleRead.Proofs.Finding.Log
import StaleRead.Proofs.Flow.Closure
import StaleRead.Proofs.Memo
import StaleRead.Proofs.Shape.Pattern

/-! # Signs

A sign is one thing that the evidence can hold: a finding, a fact or a remembered use.
`Node.Shows` says which signs a node of a tree shows, by its shape and its surroundings
alone. Noting a node adds exactly the signs that it shows, whatever was noted and
remembered before (`Evidence.Coherent.note`), so noting some nodes adds the signs that
they show, in whatever order they are noted (`Evidence.Coherent.noteAll`).
-/

namespace StaleRead

/-- One thing that the evidence can hold. -/
inductive Sign where
  | finding (read : Span) (site? : Option Span)
  | methodRead (fact : MethodRead)
  | bindingRead (fact : BindingRead)
  | methodCall (call : MethodCall)
  | helperUse (use : HelperUse)
  | bindingUse (use : BindingUse)

/-- A node reads the state in a component, and its nearest ancestor with a role plays
this one. -/
structure Node.ReadsIn (source : Source) (conventions : Conventions) (node : Node)
    (component : Component) (role : ReadRole) : Prop where
  reads : node.readsState source = true
  sits : Component.around? source conventions node = some component
  nearest : ReadRole.Nearest source node role

/-- A node is a call in a component, of a function or method with a known name. -/
@[mk_iff] structure Node.CallsIn (source : Source) (conventions : Conventions) (node : Node)
    (component : Component) (callee : String) : Prop where
  kind : node.kind = "call_expression"
  sits : Component.around? source conventions node = some component
  invokes : node.invokedName? source = some callee

/-- A node is a declarator in a component, and takes a property that holds the state from
the instance. -/
@[mk_iff] structure Node.TakesIn (source : Source) (conventions : Conventions) (node : Node)
    (component : Component) (property : TakenProperty) : Prop where
  sits : Component.around? source conventions node = some component
  takes : ∃ properties, TakenProperty.fromThis? source node = some properties ∧
    property ∈ properties

/-- A node is an identifier that stands, itself or as an operand, for an object in a state
update. -/
structure Node.UsedInUpdate (source : Source) (node : Node) : Prop where
  kind : node.kind = "identifier" ∨ node.kind = "shorthand_property_identifier"
  object : node.outermostOperation.standsForObject = true
  updates : node.outermostOperation.InUpdate source

/-- A node is one of the identifiers of a pattern. -/
def Node.BoundBy (binding : Node) (pattern? : Option Node) : Prop :=
  ∃ pattern, pattern? = some pattern ∧ binding ∈ pattern.bindings

/-- The fact that an identifier is bound to what was read at a node. -/
def Node.bindingRead (source : Source) (tree : Tree) (binding : Node) (read : Span) :
    BindingRead :=
  ⟨(binding.homeScope source tree).span, some (binding.text source), read⟩

/-- The signs that a node of a tree shows. -/
inductive Node.Shows (source : Source) (conventions : Conventions) (tree : Tree)
    (node : Node) : Sign → Prop
  /-- A read in a state update is reported. -/
  | finding {component : Component} {update : StateUpdate}
      (reads : node.ReadsIn source conventions component (.update update)) :
      Shows source conventions tree node (.finding node.span none)
  /-- A read in a named function is a read of that function. -/
  | methodRead {component : Component} {definition : NamedFunction}
      (reads : node.ReadsIn source conventions component (.function definition)) :
      Shows source conventions tree node
        (.methodRead ⟨component.span, definition.name?, node.span⟩)
  /-- A read in the value of a declarator is bound to the identifiers of its pattern. -/
  | value {component : Component} {declarator : Declarator} {binding : Node}
      (reads : node.ReadsIn source conventions component (.binding declarator))
      (bound : binding.BoundBy declarator.pattern?) :
      Shows source conventions tree node (.bindingRead (binding.bindingRead source tree node.span))
  /-- A declarator that takes the state from the instance binds identifiers to it. -/
  | taken {component : Component} {property : TakenProperty} {binding : Node}
      (takes : node.TakesIn source conventions component property)
      (bound : binding.BoundBy property.pattern?) :
      Shows source conventions tree node
        (.bindingRead (binding.bindingRead source tree property.key.span))
  /-- A call in a named function shows who calls whom. -/
  | methodCall {component : Component} {callee caller : String} {definition : NamedFunction}
      (calls : node.CallsIn source conventions component callee)
      (inside : node.enclosingFunction? source = some definition)
      (named : definition.name? = some caller) :
      Shows source conventions tree node (.methodCall ⟨component.span, caller, callee⟩)
  /-- A call that is part of a state update waits to be judged. -/
  | helperUse {component : Component} {callee : String}
      (calls : node.CallsIn source conventions component callee)
      (updates : node.InUpdate source) :
      Shows source conventions tree node (.helperUse ⟨component.span, callee, node⟩)
  /-- An identifier that is part of a state update waits to be judged. -/
  | bindingUse (uses : node.UsedInUpdate source) :
      Shows source conventions tree node
        (.bindingUse ⟨(node.homeScope source tree).span, node.text source, node⟩)

/-- A sign says that an identifier of a pattern is bound to what was read at a node. -/
def Sign.Binds (source : Source) (tree : Tree) (read : Span) (pattern? : Option Node)
    (sign : Sign) : Prop :=
  ∃ binding : Node, binding.BoundBy pattern? ∧
    sign = .bindingRead (binding.bindingRead source tree read)

/-- What a read in a component shows in a role. -/
def ReadRole.Shows (source : Source) (tree : Tree) (component read : Span) (sign : Sign) :
    ReadRole → Prop
  | .update _ => sign = .finding read none
  | .function definition => sign = .methodRead ⟨component, definition.name?, read⟩
  | .binding declarator => sign.Binds source tree read declarator.pattern?

namespace Evidence

/-- The evidence holds a sign. -/
def Holds (evidence : Evidence) : Sign → Prop
  | .finding read site? => (read, site?) ∈ evidence.log.seen
  | .methodRead fact => fact ∈ evidence.flow.methodReads
  | .bindingRead fact => fact ∈ evidence.flow.bindingReads
  | .methodCall call => call ∈ evidence.flow.calls
  | .helperUse use => use ∈ evidence.helperUses
  | .bindingUse use => use ∈ evidence.bindingUses

/-- What is remembered is right for the tree, and the tables agree with themselves. -/
structure Coherent (source : Source) (conventions : Conventions) (file : String) (tree : Tree)
    (evidence : Evidence) : Prop where
  components : evidence.components.FiledFrom tree (Component.around? source conventions)
  scopes : evidence.scopes.Reliable source tree
  flow : evidence.flow.Coherent
  log : evidence.log.Paired source
  file : evidence.log.file = file

/-- Coherent evidence that holds what was held before and, beyond that, just the gained
signs. -/
structure Gains (source : Source) (conventions : Conventions) (file : String) (tree : Tree)
    (before : Evidence) (gained : Sign → Prop) (after : Evidence) : Prop where
  coherent : after.Coherent source conventions file tree
  holds : ∀ sign, after.Holds sign ↔ before.Holds sign ∨ gained sign

variable {source : Source} {conventions : Conventions} {file : String} {tree : Tree}
  {before middle after evidence : Evidence} {first second : Sign → Prop}

theorem gains_none (coherent : after.Coherent source conventions file tree)
    (same : ∀ sign, after.Holds sign ↔ before.Holds sign) :
    Gains source conventions file tree before (fun _ => False) after :=
  ⟨coherent, fun sign => by rw [same, or_false]⟩

theorem Gains.trans (early : Gains source conventions file tree before first middle)
    (late : Gains source conventions file tree middle second after) :
    Gains source conventions file tree before (fun sign => first sign ∨ second sign) after :=
  ⟨late.coherent, fun sign => by rw [late.holds, early.holds, or_assoc]⟩

theorem Gains.congr (gains : Gains source conventions file tree before first after)
    (same : ∀ sign, first sign ↔ second sign) :
    Gains source conventions file tree before second after :=
  ⟨gains.coherent, fun sign => by rw [gains.holds, same]⟩

theorem Gains.none_trans
    (early : Gains source conventions file tree before (fun _ => False) middle)
    (late : Gains source conventions file tree middle second after) :
    Gains source conventions file tree before second after :=
  (early.trans late).congr fun _ => by rw [false_or]

theorem Gains.none_congr
    (gains : Gains source conventions file tree before (fun _ => False) after)
    (nothing : ∀ sign, ¬ second sign) : Gains source conventions file tree before second after :=
  gains.congr fun sign => iff_of_false id (nothing sign)

theorem coherent_initial (source : Source) (conventions : Conventions) (file : String)
    (tree : Tree) : (initial file tree).Coherent source conventions file tree where
  components := Memo.filedFrom_empty
  scopes := Scopes.reliable_ofTree source tree
  flow := Flow.coherent_empty
  log := FindingLog.paired_ofFile source file
  file := rfl

theorem not_holds_initial (file : String) (tree : Tree) (sign : Sign) :
    ¬ (initial file tree).Holds sign := by
  cases sign <;> exact List.not_mem_nil

theorem Coherent.component?_gains (coherent : evidence.Coherent source conventions file tree)
    {node : Node} (inside : node ∈ tree.nodes) :
    Gains source conventions file tree evidence (fun _ => False)
      (evidence.component? source conventions node).2 := by
  refine gains_none ⟨coherent.components.ask inside, coherent.scopes, coherent.flow, coherent.log,
    coherent.file⟩ fun sign => ?_
  cases sign <;> exact Iff.rfl

theorem Coherent.component?_eq (coherent : evidence.Coherent source conventions file tree)
    {node : Node} (known : tree.KnowsBySpan node) :
    (evidence.component? source conventions node).1 =
      Component.around? source conventions node :=
  coherent.components.ask_eq known

theorem Coherent.component? (coherent : evidence.Coherent source conventions file tree)
    (distinct : tree.SpansDistinct) {node : Node} (inside : node ∈ tree.nodes) :
    ∃ next, evidence.component? source conventions node =
        (Component.around? source conventions node, next) ∧
      Gains source conventions file tree evidence (fun _ => False) next :=
  ⟨_, Prod.ext (coherent.component?_eq (distinct.knowsBySpan inside)) rfl,
    coherent.component?_gains inside⟩

theorem Coherent.scope_gains (coherent : evidence.Coherent source conventions file tree)
    {node : Node} (inside : node ∈ tree.nodes) :
    Gains source conventions file tree evidence (fun _ => False)
      (evidence.scope source node).2 := by
  refine gains_none ⟨coherent.components, coherent.scopes.declaring inside, coherent.flow,
    coherent.log, coherent.file⟩ fun sign => ?_
  cases sign <;> exact Iff.rfl

theorem Coherent.scope_eq (coherent : evidence.Coherent source conventions file tree)
    (distinct : tree.SpansDistinct) {node : Node} (inside : node ∈ tree.nodes) :
    (evidence.scope source node).1 = (node.homeScope source tree).span :=
  coherent.scopes.declaring_eq distinct inside

theorem Coherent.flag (coherent : evidence.Coherent source conventions file tree)
    (read : Span) (site? : Option Span) :
    Gains source conventions file tree evidence (· = .finding read site?)
      (evidence.flag source read site?) := by
  refine ⟨⟨coherent.components, coherent.scopes, coherent.flow, coherent.log.add read site?,
    (FindingLog.file_add ..).trans coherent.file⟩, fun sign => ?_⟩
  cases sign with
  | finding read site? => simp [Evidence.flag, Holds, FindingLog.mem_seen_add]
  | _ => simp [Evidence.flag, Holds]

theorem Coherent.addMethodRead (coherent : evidence.Coherent source conventions file tree)
    (fact : MethodRead) :
    Gains source conventions file tree evidence (· = .methodRead fact)
      { evidence with flow := (evidence.flow.addMethodRead fact).2 } := by
  refine ⟨⟨coherent.components, coherent.scopes, coherent.flow.addMethodRead fact, coherent.log,
    coherent.file⟩, fun sign => ?_⟩
  cases sign with
  | methodRead other => simp [Holds, coherent.flow.mem_addMethodRead]
  | _ => simp [Holds]

theorem Coherent.addBindingRead (coherent : evidence.Coherent source conventions file tree)
    (fact : BindingRead) :
    Gains source conventions file tree evidence (· = .bindingRead fact)
      { evidence with flow := (evidence.flow.addBindingRead fact).2 } := by
  refine ⟨⟨coherent.components, coherent.scopes, coherent.flow.addBindingRead fact,
    coherent.log, coherent.file⟩, fun sign => ?_⟩
  cases sign with
  | bindingRead other => simp [Holds, coherent.flow.mem_addBindingRead]
  | _ => simp [Holds]

theorem Coherent.addCall (coherent : evidence.Coherent source conventions file tree)
    (call : MethodCall) :
    Gains source conventions file tree evidence (· = .methodCall call)
      { evidence with flow := evidence.flow.addCall call } := by
  refine ⟨⟨coherent.components, coherent.scopes, coherent.flow.addCall call, coherent.log,
    coherent.file⟩, fun sign => ?_⟩
  cases sign with
  | methodCall other => simp [Holds, Flow.mem_addCall]
  | _ => simp [Holds]

theorem Coherent.addHelperUse (coherent : evidence.Coherent source conventions file tree)
    (use : HelperUse) :
    Gains source conventions file tree evidence (· = .helperUse use)
      { evidence with helperUses := evidence.helperUses ++ [use] } := by
  refine ⟨⟨coherent.components, coherent.scopes, coherent.flow, coherent.log, coherent.file⟩,
    fun sign => ?_⟩
  cases sign <;> simp [Holds]

theorem Coherent.addBindingUse (coherent : evidence.Coherent source conventions file tree)
    (use : BindingUse) :
    Gains source conventions file tree evidence (· = .bindingUse use)
      { evidence with bindingUses := evidence.bindingUses ++ [use] } := by
  refine ⟨⟨coherent.components, coherent.scopes, coherent.flow, coherent.log, coherent.file⟩,
    fun sign => ?_⟩
  cases sign <;> simp [Holds]

theorem Coherent.refl (coherent : evidence.Coherent source conventions file tree) :
    Gains source conventions file tree evidence (fun _ => False) evidence :=
  gains_none coherent fun _ => Iff.rfl

/-- What is gained by one step for each item of a list. -/
theorem Coherent.foldl {Item : Type} {step : Evidence → Item → Evidence}
    {gained : Item → Sign → Prop} {items : List Item}
    (steps : ∀ item ∈ items, ∀ evidence, evidence.Coherent source conventions file tree →
      Gains source conventions file tree evidence (gained item) (step evidence item))
    (coherent : evidence.Coherent source conventions file tree) :
    Gains source conventions file tree evidence (fun sign => ∃ item ∈ items, gained item sign)
      (items.foldl step evidence) := by
  induction items generalizing evidence with
  | nil => exact coherent.refl.congr fun _ => by simp
  | cons item rest ih =>
      have first := steps item List.mem_cons_self evidence coherent
      have later := ih (fun other member => steps other (List.mem_cons_of_mem _ member))
        first.coherent
      exact (first.trans later).congr fun _ => by simp

theorem Coherent.useBinding_gains (coherent : evidence.Coherent source conventions file tree)
    {node : Node} (inside : node ∈ tree.nodes) :
    Gains source conventions file tree evidence
      (· = .bindingUse ⟨(evidence.scope source node).1, node.text source, node⟩)
      { (evidence.scope source node).2 with
        bindingUses := evidence.bindingUses ++
          [⟨(evidence.scope source node).1, node.text source, node⟩] } := by
  have asked := coherent.scope_gains inside
  exact asked.none_trans (asked.coherent.addBindingUse _)

theorem Coherent.bindIdentifier_gains (coherent : evidence.Coherent source conventions file tree)
    (read : Span) {binding : Node} (inside : binding ∈ tree.nodes) :
    Gains source conventions file tree evidence
      (· = .bindingRead ⟨(evidence.scope source binding).1, some (binding.text source), read⟩)
      (evidence.bindIdentifier source read binding) := by
  have asked := coherent.scope_gains inside
  exact asked.none_trans (asked.coherent.addBindingRead _)

theorem Coherent.bindIdentifier (coherent : evidence.Coherent source conventions file tree)
    (distinct : tree.SpansDistinct) (read : Span) {binding : Node}
    (inside : binding ∈ tree.nodes) :
    Gains source conventions file tree evidence
      (· = .bindingRead (binding.bindingRead source tree read))
      (evidence.bindIdentifier source read binding) := by
  have bound := coherent.bindIdentifier_gains read inside
  rwa [coherent.scope_eq distinct inside] at bound

theorem Coherent.bindPattern (coherent : evidence.Coherent source conventions file tree)
    (distinct : tree.SpansDistinct) (read : Span) {pattern? : Option Node}
    (inside : ∀ pattern, pattern? = some pattern → pattern ∈ tree.nodes) :
    Gains source conventions file tree evidence (Sign.Binds source tree read pattern?)
      (evidence.bindPattern source read pattern?) := by
  cases pattern? with
  | none => exact coherent.refl.congr fun _ => by simp [Sign.Binds, Node.BoundBy]
  | some pattern =>
      have binds : ∀ binding ∈ pattern.bindings, binding ∈ tree.nodes :=
        fun _ => Node.mem_nodes_of_mem_bindings (inside pattern rfl)
      refine (coherent.foldl fun binding member _ coherent =>
        coherent.bindIdentifier distinct read (binds binding member)).congr fun _ => ?_
      simp [Sign.Binds, Node.BoundBy]

end Evidence

namespace Node

variable {source : Source} {conventions : Conventions} {tree : Tree} {node : Node} {sign : Sign}
  {component : Component}

theorem ReadsIn.kind {role : ReadRole} (reads : node.ReadsIn source conventions component role) :
    node.kind = "member_expression" :=
  kind_of_readsState reads.reads

theorem TakesIn.kind {property : TakenProperty}
    (takes : node.TakesIn source conventions component property) :
    node.kind = "variable_declarator" := by
  obtain ⟨_, takes, _⟩ := takes.takes
  exact TakenProperty.kind_of_fromThis? takes

theorem shows_iff_of_member (kind : node.kind = "member_expression") :
    node.Shows source conventions tree sign ↔
      ∃ component role, node.ReadsIn source conventions component role ∧
        role.Shows source tree component.span node.span sign := by
  constructor
  · intro shown
    cases shown with
    | finding reads => exact ⟨_, _, reads, rfl⟩
    | methodRead reads => exact ⟨_, _, reads, rfl⟩
    | value reads bound => exact ⟨_, _, reads, _, bound, rfl⟩
    | taken takes => exact absurd (kind.symm.trans takes.kind) (by decide)
    | methodCall calls => exact absurd (kind.symm.trans calls.kind) (by decide)
    | helperUse calls => exact absurd (kind.symm.trans calls.kind) (by decide)
    | bindingUse uses => exact absurd uses.kind (by rw [kind]; decide)
  · rintro ⟨component, role, reads, shown⟩
    cases role with
    | update call => exact shown ▸ .finding reads
    | function definition => exact shown ▸ .methodRead reads
    | binding declarator =>
        obtain ⟨binding, bound, rfl⟩ := shown
        exact .value reads bound

/-- A read in a component shows what it does in its one role. -/
theorem ReadsIn.shows_iff {role : ReadRole}
    (reads : node.ReadsIn source conventions component role) (distinct : tree.SpansDistinct)
    (inside : node ∈ tree.nodes) :
    node.Shows source conventions tree sign ↔
      role.Shows source tree component.span node.span sign := by
  have nearest := ReadRole.of?_eq_some_iff source distinct inside
  rw [shows_iff_of_member reads.kind]
  constructor
  · rintro ⟨_, _, other, shown⟩
    cases reads.sits.symm.trans other.sits
    cases ((nearest role).mpr reads.nearest).symm.trans ((nearest _).mpr other.nearest)
    exact shown
  · intro shown
    exact ⟨component, role, reads, shown⟩

theorem shows_iff_of_call (kind : node.kind = "call_expression") :
    node.Shows source conventions tree sign ↔
      ∃ component callee, node.CallsIn source conventions component callee ∧
        ((∃ definition caller, node.enclosingFunction? source = some definition ∧
            definition.name? = some caller ∧
              sign = .methodCall ⟨component.span, caller, callee⟩) ∨
          node.InUpdate source ∧ sign = .helperUse ⟨component.span, callee, node⟩) := by
  constructor
  · intro shown
    cases shown with
    | finding reads => exact absurd (kind.symm.trans reads.kind) (by decide)
    | methodRead reads => exact absurd (kind.symm.trans reads.kind) (by decide)
    | value reads => exact absurd (kind.symm.trans reads.kind) (by decide)
    | taken takes => exact absurd (kind.symm.trans takes.kind) (by decide)
    | methodCall calls inside named =>
        exact ⟨_, _, calls, Or.inl ⟨_, _, inside, named, rfl⟩⟩
    | helperUse calls updates => exact ⟨_, _, calls, Or.inr ⟨updates, rfl⟩⟩
    | bindingUse uses => exact absurd uses.kind (by rw [kind]; decide)
  · rintro ⟨component, callee, calls, ⟨definition, caller, inside, named, rfl⟩ | ⟨updates, rfl⟩⟩
    · exact .methodCall calls inside named
    · exact .helperUse calls updates

/-- A call in a component shows a call by the named function around it, and waits to be
judged if it is part of a state update. -/
theorem CallsIn.shows_iff {callee : String}
    (calls : node.CallsIn source conventions component callee) :
    node.Shows source conventions tree sign ↔
      (∃ caller, (node.enclosingFunction? source).bind NamedFunction.name? = some caller ∧
        sign = .methodCall ⟨component.span, caller, callee⟩) ∨
      (node.InUpdate source ∧ sign = .helperUse ⟨component.span, callee, node⟩) := by
  rw [shows_iff_of_call calls.kind]
  constructor
  · rintro ⟨_, _, other, shown⟩
    cases calls.sits.symm.trans other.sits
    cases calls.invokes.symm.trans other.invokes
    refine shown.imp_left ?_
    rintro ⟨definition, caller, within, named, shown⟩
    exact ⟨caller, Option.bind_eq_some_iff.mpr ⟨definition, within, named⟩, shown⟩
  · intro shown
    refine ⟨component, callee, calls, shown.imp_left ?_⟩
    rintro ⟨caller, named, shown⟩
    obtain ⟨definition, within, named⟩ := Option.bind_eq_some_iff.mp named
    exact ⟨definition, caller, within, named, shown⟩

theorem shows_iff_of_identifier
    (kind : node.kind = "identifier" ∨ node.kind = "shorthand_property_identifier") :
    node.Shows source conventions tree sign ↔
      node.UsedInUpdate source ∧
        sign = .bindingUse ⟨(node.homeScope source tree).span, node.text source, node⟩ := by
  constructor
  · intro shown
    cases shown with
    | finding reads => exact absurd kind (by rw [reads.kind]; decide)
    | methodRead reads => exact absurd kind (by rw [reads.kind]; decide)
    | value reads => exact absurd kind (by rw [reads.kind]; decide)
    | taken takes => exact absurd kind (by rw [takes.kind]; decide)
    | methodCall calls => exact absurd kind (by rw [calls.kind]; decide)
    | helperUse calls => exact absurd kind (by rw [calls.kind]; decide)
    | bindingUse uses => exact ⟨uses, rfl⟩
  · rintro ⟨uses, rfl⟩
    exact .bindingUse uses

theorem shows_iff_of_declarator (kind : node.kind = "variable_declarator") :
    node.Shows source conventions tree sign ↔
      ∃ component property, node.TakesIn source conventions component property ∧
        sign.Binds source tree property.key.span property.pattern? := by
  constructor
  · intro shown
    cases shown with
    | finding reads => exact absurd (kind.symm.trans reads.kind) (by decide)
    | methodRead reads => exact absurd (kind.symm.trans reads.kind) (by decide)
    | value reads => exact absurd (kind.symm.trans reads.kind) (by decide)
    | taken takes bound => exact ⟨_, _, takes, _, bound, rfl⟩
    | methodCall calls => exact absurd (kind.symm.trans calls.kind) (by decide)
    | helperUse calls => exact absurd (kind.symm.trans calls.kind) (by decide)
    | bindingUse uses => exact absurd uses.kind (by rw [kind]; decide)
  · rintro ⟨component, property, takes, binding, bound, rfl⟩
    exact .taken takes bound

theorem not_shows_of_other (member : node.kind ≠ "member_expression")
    (call : node.kind ≠ "call_expression")
    (identifier : ¬ (node.kind = "identifier" ∨ node.kind = "shorthand_property_identifier"))
    (declarator : node.kind ≠ "variable_declarator") :
    ¬ node.Shows source conventions tree sign := by
  intro shown
  cases shown with
  | finding reads => exact member reads.kind
  | methodRead reads => exact member reads.kind
  | value reads => exact member reads.kind
  | taken takes => exact declarator takes.kind
  | methodCall calls => exact call calls.kind
  | helperUse calls => exact call calls.kind
  | bindingUse uses => exact identifier uses.kind

end Node

namespace Evidence

variable {source : Source} {conventions : Conventions} {file : String} {tree : Tree}
  {evidence : Evidence}

theorem Coherent.noteRead (coherent : evidence.Coherent source conventions file tree)
    (distinct : tree.SpansDistinct) {node : Node} (inside : node ∈ tree.nodes)
    (kind : node.kind = "member_expression") :
    Gains source conventions file tree evidence (node.Shows source conventions tree)
      (evidence.noteRead source conventions node) := by
  rw [Evidence.noteRead]
  split
  case isFalse noRead =>
    refine coherent.refl.none_congr fun sign shown => ?_
    obtain ⟨_, _, reads, _⟩ := (Node.shows_iff_of_member kind).mp shown
    exact noRead reads.reads
  case isTrue reads =>
    obtain ⟨next, asked, kept⟩ := coherent.component? distinct inside
    have role := ReadRole.of?_eq_some_iff source distinct inside
    rw [asked]
    cases sits : Component.around? source conventions node with
    | none =>
        refine kept.none_congr fun sign shown => ?_
        obtain ⟨_, _, reads, _⟩ := (Node.shows_iff_of_member kind).mp shown
        cases sits.symm.trans reads.sits
    | some component =>
        cases found : ReadRole.of? source node with
        | none =>
            refine kept.none_congr fun sign shown => ?_
            obtain ⟨_, _, reads, _⟩ := (Node.shows_iff_of_member kind).mp shown
            cases found.symm.trans ((role _).mpr reads.nearest)
        | some plays =>
            have shows : ∀ sign, plays.Shows source tree component.span node.span sign ↔
                node.Shows source conventions tree sign := fun _ =>
              (Node.ReadsIn.shows_iff ⟨reads, sits, (role _).mp found⟩ distinct inside).symm
            cases plays with
            | update call => exact (kept.none_trans (kept.coherent.flag _ _)).congr shows
            | function definition =>
                exact (kept.none_trans (kept.coherent.addMethodRead _)).congr shows
            | binding declarator =>
                refine (kept.none_trans (kept.coherent.bindPattern distinct _ ?_)).congr shows
                exact fun _ => ReadRole.pattern?_mem_nodes_of_of? found inside

theorem Coherent.addCallFrom (coherent : evidence.Coherent source conventions file tree)
    (component : Span) (caller? : Option String) (callee : String) :
    Gains source conventions file tree evidence
      (fun sign => ∃ caller, caller? = some caller ∧
        sign = .methodCall ⟨component, caller, callee⟩)
      { evidence with
        flow :=
          match caller? with
          | none => evidence.flow
          | some caller => evidence.flow.addCall ⟨component, caller, callee⟩ } := by
  cases caller? with
  | none => exact coherent.refl.congr fun _ => by simp
  | some caller => exact (coherent.addCall _).congr fun _ => by simp

theorem Coherent.noteCall (coherent : evidence.Coherent source conventions file tree)
    (distinct : tree.SpansDistinct) {node : Node} (inside : node ∈ tree.nodes)
    (kind : node.kind = "call_expression") :
    Gains source conventions file tree evidence (node.Shows source conventions tree)
      (evidence.noteCall source conventions node) := by
  obtain ⟨next, asked, kept⟩ := coherent.component? distinct inside
  rw [Evidence.noteCall, asked]
  cases sits : Component.around? source conventions node with
  | none =>
      refine kept.none_congr fun sign shown => ?_
      obtain ⟨_, _, calls, _⟩ := (Node.shows_iff_of_call kind).mp shown
      cases sits.symm.trans calls.sits
  | some component =>
      cases invokes : node.invokedName? source with
      | none =>
          refine kept.none_congr fun sign shown => ?_
          obtain ⟨_, _, calls, _⟩ := (Node.shows_iff_of_call kind).mp shown
          cases invokes.symm.trans calls.invokes
      | some callee =>
          have shows : ∀ sign, node.Shows source conventions tree sign ↔ _ := fun _ =>
            Node.CallsIn.shows_iff ⟨kind, sits, invokes⟩
          rw [← Node.enclosingUpdate?_isSome_iff source distinct inside] at shows
          have called := kept.coherent.addCallFrom component.span
            ((node.enclosingFunction? source).bind NamedFunction.name?) callee
          by_cases updates : (node.enclosingUpdate? source).isSome = true
          · simp only [updates, ↓reduceIte]
            refine (kept.none_trans (called.trans (called.coherent.addHelperUse _))).congr ?_
            exact fun _ => by rw [shows]; simp [updates]
          · simp only [updates]
            exact (kept.none_trans called).congr fun _ => by rw [shows]; simp [updates]

theorem Coherent.noteIdentifier (coherent : evidence.Coherent source conventions file tree)
    (distinct : tree.SpansDistinct) {node : Node} (inside : node ∈ tree.nodes)
    (kind : node.kind = "identifier" ∨ node.kind = "shorthand_property_identifier") :
    Gains source conventions file tree evidence (node.Shows source conventions tree)
      (evidence.noteIdentifier source node) := by
  have operation := Node.enclosingUpdate?_isSome_iff source distinct
    (Node.outermostOperation_mem_nodes inside)
  rw [Evidence.noteIdentifier]
  split
  case isTrue uses =>
    rw [Bool.and_eq_true, operation] at uses
    refine (coherent.useBinding_gains inside).congr fun _ => ?_
    rw [coherent.scope_eq distinct inside, Node.shows_iff_of_identifier kind]
    exact (and_iff_right ⟨kind, uses.1, uses.2⟩).symm
  case isFalse noUse =>
    rw [Bool.and_eq_true, operation] at noUse
    refine coherent.refl.none_congr fun sign shown => noUse ?_
    obtain ⟨uses, _⟩ := (Node.shows_iff_of_identifier kind).mp shown
    exact ⟨uses.object, uses.updates⟩

theorem Coherent.noteDeclarator (coherent : evidence.Coherent source conventions file tree)
    (distinct : tree.SpansDistinct) {node : Node} (inside : node ∈ tree.nodes)
    (kind : node.kind = "variable_declarator") :
    Gains source conventions file tree evidence (node.Shows source conventions tree)
      (evidence.noteDeclarator source conventions node) := by
  rw [Evidence.noteDeclarator]
  cases takes : TakenProperty.fromThis? source node with
  | none =>
      refine coherent.refl.none_congr fun sign shown => ?_
      obtain ⟨_, _, ⟨_, _, other, _⟩, _⟩ := (Node.shows_iff_of_declarator kind).mp shown
      cases takes.symm.trans other
  | some properties =>
      obtain ⟨next, asked, kept⟩ := coherent.component? distinct inside
      rw [asked]
      cases sits : Component.around? source conventions node with
      | none =>
          refine kept.none_congr fun sign shown => ?_
          obtain ⟨_, _, taken, _⟩ := (Node.shows_iff_of_declarator kind).mp shown
          cases sits.symm.trans taken.sits
      | some component =>
          have bound := kept.coherent.foldl fun property member _ coherent =>
            coherent.bindPattern distinct property.key.span
              (TakenProperty.mem_nodes_of_fromThis? inside takes member).2
          refine (kept.none_trans bound).congr fun _ => ?_
          rw [Node.shows_iff_of_declarator kind]
          simp [Node.takesIn_iff, takes, sits]

/-- Noting a node of a tree adds exactly the signs that it shows. -/
theorem Coherent.note (coherent : evidence.Coherent source conventions file tree)
    (distinct : tree.SpansDistinct) {node : Node} (inside : node ∈ tree.nodes) :
    Gains source conventions file tree evidence (node.Shows source conventions tree)
      (evidence.note source conventions node) := by
  rw [Evidence.note]
  split_ifs with member call identifier declarator
  · exact coherent.noteRead distinct inside member
  · exact coherent.noteCall distinct inside call
  · exact coherent.noteIdentifier distinct inside identifier
  · exact coherent.noteDeclarator distinct inside declarator
  · exact coherent.refl.none_congr fun _ =>
      Node.not_shows_of_other member call identifier declarator

/-- Noting some nodes of a tree adds exactly the signs that they show. -/
theorem Coherent.noteAll (coherent : evidence.Coherent source conventions file tree)
    (distinct : tree.SpansDistinct) {nodes : List Node} (inside : nodes ⊆ tree.nodes) :
    Gains source conventions file tree evidence
      (fun sign => ∃ node ∈ nodes, node.Shows source conventions tree sign)
      (evidence.noteAll source conventions nodes) :=
  coherent.foldl fun _ member _ coherent => coherent.note distinct (inside member)

end Evidence

end StaleRead
