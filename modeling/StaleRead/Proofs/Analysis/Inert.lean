import StaleRead.Proofs.Analysis.Verdict
import StaleRead.Proofs.Component

/-! # Inert reads

A read without a role is inert: nothing is recorded of it and it is not reported. The
search for a role goes up to the root and does not stop at the component, so a read at the
top of a component is inert only if nothing around the component has a role for it
(`marks_ofTree_iff`). For this, one node matters alone: what is noted at the others leaves
the read as it was, also where other nodes share their spans.
-/

namespace StaleRead

/-- A sign says something of the read at a span. -/
def Sign.Marks (span : Span) : Sign → Prop
  | .finding read _ => read = span
  | .methodRead fact => fact.read = span
  | .bindingRead fact => fact.read = span
  | _ => False

/-- A role has an effect on a read, unless it is that of a declarator that binds nothing. -/
def ReadRole.Effective : ReadRole → Prop
  | .binding declarator => ∃ binding : Node, binding.BoundBy declarator.pattern?
  | _ => True

namespace Evidence

/-- Something is recorded of the read at a span, or it is reported. -/
def Marks (evidence : Evidence) (span : Span) : Prop :=
  (∃ fact ∈ evidence.flow.methodReads, fact.read = span) ∨
    (∃ fact ∈ evidence.flow.bindingReads, fact.read = span) ∨
      ∃ pair ∈ evidence.log.seen, pair.1 = span

theorem marks_iff {evidence : Evidence} {span : Span} :
    evidence.Marks span ↔ ∃ sign, evidence.Holds sign ∧ sign.Marks span := by
  constructor
  · rintro (⟨fact, held, here⟩ | ⟨fact, held, here⟩ | ⟨⟨read, site?⟩, held, here⟩)
    · exact ⟨.methodRead fact, held, here⟩
    · exact ⟨.bindingRead fact, held, here⟩
    · exact ⟨.finding read site?, held, here⟩
  · rintro ⟨sign, held, here⟩
    cases sign with
    | finding read site? => exact Or.inr (Or.inr ⟨_, held, here⟩)
    | methodRead fact => exact Or.inl ⟨fact, held, here⟩
    | bindingRead fact => exact Or.inr (Or.inl ⟨fact, held, here⟩)
    | methodCall call => exact here.elim
    | helperUse use => exact here.elim
    | bindingUse use => exact here.elim

/-- Coherent evidence that marks a read if it was marked before or a condition holds. -/
structure Touches (source : Source) (conventions : Conventions) (file : String) (tree : Tree)
    (span : Span) (before : Evidence) (condition : Prop) (after : Evidence) : Prop where
  coherent : after.Coherent source conventions file tree
  marks : after.Marks span ↔ before.Marks span ∨ condition

variable {source : Source} {conventions : Conventions} {file : String} {tree : Tree}
  {span : Span} {before middle after evidence : Evidence} {first second : Prop}

theorem Gains.touches {gained : Sign → Prop}
    (gains : Gains source conventions file tree before gained after)
    (marking : (∃ sign, gained sign ∧ sign.Marks span) ↔ first) :
    Touches source conventions file tree span before first after := by
  refine ⟨gains.coherent, ?_⟩
  rw [← marking, marks_iff, marks_iff, ← exists_or]
  simp only [gains.holds, or_and_right]

theorem Touches.trans (early : Touches source conventions file tree span before first middle)
    (late : Touches source conventions file tree span middle second after) :
    Touches source conventions file tree span before (first ∨ second) after :=
  ⟨late.coherent, by rw [late.marks, early.marks, or_assoc]⟩

theorem Touches.congr (touches : Touches source conventions file tree span before first after)
    (same : first ↔ second) : Touches source conventions file tree span before second after :=
  ⟨touches.coherent, by rw [touches.marks, same]⟩

theorem Touches.none_trans
    (early : Touches source conventions file tree span before False middle)
    (late : Touches source conventions file tree span middle second after) :
    Touches source conventions file tree span before second after :=
  (early.trans late).congr (by rw [false_or])

theorem Coherent.untouched (coherent : evidence.Coherent source conventions file tree)
    (span : Span) : Touches source conventions file tree span evidence False evidence :=
  ⟨coherent, by rw [or_false]⟩

theorem Coherent.foldl_touches {Item : Type} {step : Evidence → Item → Evidence}
    {condition : Item → Prop} {items : List Item} (span : Span)
    (steps : ∀ item ∈ items, ∀ evidence, evidence.Coherent source conventions file tree →
      Touches source conventions file tree span evidence (condition item) (step evidence item))
    (coherent : evidence.Coherent source conventions file tree) :
    Touches source conventions file tree span evidence (∃ item ∈ items, condition item)
      (items.foldl step evidence) := by
  induction items generalizing evidence with
  | nil => exact (coherent.untouched span).congr (by simp)
  | cons item rest ih =>
      have here := steps item List.mem_cons_self evidence coherent
      have later := ih (fun other member => steps other (List.mem_cons_of_mem _ member))
        here.coherent
      exact (here.trans later).congr (by simp)

theorem Coherent.component?_touches (coherent : evidence.Coherent source conventions file tree)
    {node : Node} (inside : node ∈ tree.nodes) (span : Span) :
    Touches source conventions file tree span evidence False
      (evidence.component? source conventions node).2 :=
  (coherent.component?_gains inside).touches (by simp)

/-- Binding a pattern marks the read that it is bound to, if the pattern binds anything. -/
theorem Coherent.bindPattern_touches (coherent : evidence.Coherent source conventions file tree)
    (span read : Span) {pattern? : Option Node}
    (inside : ∀ pattern, pattern? = some pattern → pattern ∈ tree.nodes) :
    Touches source conventions file tree span evidence
      (read = span ∧ ∃ binding : Node, binding.BoundBy pattern?)
      (evidence.bindPattern source read pattern?) := by
  cases pattern? with
  | none => exact (coherent.untouched span).congr (by simp [Node.BoundBy])
  | some pattern =>
      have bound : ∀ binding ∈ pattern.bindings, ∀ evidence : Evidence,
          evidence.Coherent source conventions file tree →
            Touches source conventions file tree span evidence (read = span)
              (evidence.bindIdentifier source read binding) := by
        intro binding member evidence coherent
        have binds := Node.mem_nodes_of_mem_bindings (inside pattern rfl) member
        exact (coherent.bindIdentifier_gains read binds).touches (by simp [Sign.Marks])
      refine (coherent.foldl_touches span bound).congr ?_
      simp [Node.BoundBy, and_comm]

theorem Coherent.noteCall_touches (coherent : evidence.Coherent source conventions file tree)
    {node : Node} (inside : node ∈ tree.nodes) (span : Span) :
    Touches source conventions file tree span evidence False
      (evidence.noteCall source conventions node) := by
  have kept := coherent.component?_touches inside span
  rw [Evidence.noteCall]
  generalize evidence.component? source conventions node = answer at kept ⊢
  obtain ⟨component?, next⟩ := answer
  cases component? with
  | none => exact kept
  | some component =>
      cases node.invokedName? source with
      | none => exact kept
      | some callee =>
          have called : Touches source conventions file tree span next False _ :=
            (kept.coherent.addCallFrom component.span
              ((node.enclosingFunction? source).bind NamedFunction.name?) callee).touches
                (by simp [Sign.Marks])
          have used : Touches source conventions file tree span _ False _ :=
            (called.coherent.addHelperUse ⟨component.span, callee, node⟩).touches
              (by simp [Sign.Marks])
          by_cases updates : (node.enclosingUpdate? source).isSome = true
          · simp only [updates, ↓reduceIte]
            exact kept.none_trans (called.none_trans used)
          · simp only [updates]
            exact kept.none_trans called

theorem Coherent.noteIdentifier_touches
    (coherent : evidence.Coherent source conventions file tree) {node : Node}
    (inside : node ∈ tree.nodes) (span : Span) :
    Touches source conventions file tree span evidence False
      (evidence.noteIdentifier source node) := by
  rw [Evidence.noteIdentifier]
  split
  case isTrue uses => exact (coherent.useBinding_gains inside).touches (by simp [Sign.Marks])
  case isFalse noUse => exact coherent.untouched span

/-- Taking the state from the instance marks no member access: it is done by a name. -/
theorem Coherent.noteDeclarator_touches
    (coherent : evidence.Coherent source conventions file tree) {node : Node}
    (inside : node ∈ tree.nodes) (member : span.kind = "member_expression") :
    Touches source conventions file tree span evidence False
      (evidence.noteDeclarator source conventions node) := by
  have kept := coherent.component?_touches inside span
  rw [Evidence.noteDeclarator]
  cases takes : TakenProperty.fromThis? source node with
  | none => exact coherent.untouched span
  | some properties =>
      generalize evidence.component? source conventions node = answer at kept ⊢
      obtain ⟨component?, next⟩ := answer
      cases component? with
      | none => exact kept
      | some component =>
          have bound := kept.coherent.foldl_touches span fun taken isTaken _ coherent =>
            coherent.bindPattern_touches span taken.key.span
              (TakenProperty.mem_nodes_of_fromThis? inside takes isTaken).2
          refine (kept.none_trans bound).congr (iff_false_intro ?_)
          rintro ⟨taken, isTaken, rfl, _⟩
          have named := TakenProperty.kind_key_of_fromThis? takes isTaken
          rw [show taken.key.kind = "member_expression" from member] at named
          exact absurd named (by decide)

/-- Noting a read marks it if some role has an effect on it. -/
theorem Coherent.noteRead_touches (coherent : evidence.Coherent source conventions file tree)
    {read : Node} (known : tree.KnowsBySpan read) {component : Component}
    (reads : read.readsState source = true)
    (sits : Component.around? source conventions read = some component) {node : Node}
    (inside : node ∈ tree.nodes) :
    Touches source conventions file tree read.span evidence
      (node = read ∧ ∃ role, ReadRole.of? source read = some role ∧ role.Effective)
      (evidence.noteRead source conventions node) := by
  rw [Evidence.noteRead]
  split
  case isFalse noRead =>
    refine (coherent.untouched _).congr (iff_of_false id ?_)
    rintro ⟨rfl, _⟩
    exact noRead reads
  case isTrue =>
    have kept := coherent.component?_touches inside read.span
    have answer := coherent.component?_eq known
    generalize asked : evidence.component? source conventions node = answer at kept ⊢
    obtain ⟨component?, next⟩ := answer
    cases component? with
    | none =>
        refine kept.congr (iff_of_false id ?_)
        rintro ⟨rfl, _⟩
        rw [asked, sits] at answer
        cases answer
    | some around =>
        cases found : ReadRole.of? source node with
        | none =>
            refine kept.congr (iff_of_false id ?_)
            rintro ⟨rfl, role, same, _⟩
            cases found.symm.trans same
        | some role =>
            have condition : node.span = read.span ∧ role.Effective ↔
                node = read ∧ ∃ role, ReadRole.of? source read = some role ∧ role.Effective := by
              constructor
              · rintro ⟨same, effective⟩
                obtain rfl := known node inside same
                exact ⟨rfl, role, found, effective⟩
              · rintro ⟨rfl, other, same, effective⟩
                cases found.symm.trans same
                exact ⟨rfl, effective⟩
            cases role with
            | update call =>
                refine kept.none_trans ((kept.coherent.flag _ _).touches ?_)
                rw [← condition]
                simp [Sign.Marks, ReadRole.Effective]
            | function definition =>
                refine kept.none_trans ((kept.coherent.addMethodRead _).touches ?_)
                rw [← condition]
                simp [Sign.Marks, ReadRole.Effective]
            | binding declarator =>
                have bound := kept.coherent.bindPattern_touches read.span node.span
                  fun _ => ReadRole.pattern?_mem_nodes_of_of? found inside
                exact (kept.none_trans bound).congr condition

/-- Noting a node marks a read only if it is the read and some role has an effect on it. -/
theorem Coherent.note_touches (coherent : evidence.Coherent source conventions file tree)
    {read : Node} (known : tree.KnowsBySpan read) {component : Component}
    (reads : read.readsState source = true)
    (sits : Component.around? source conventions read = some component) {node : Node}
    (inside : node ∈ tree.nodes) :
    Touches source conventions file tree read.span evidence
      (node = read ∧ ∃ role, ReadRole.of? source read = some role ∧ role.Effective)
      (evidence.note source conventions node) := by
  have member := Node.kind_of_readsState reads
  have other : node.kind ≠ "member_expression" → (False ↔ node = read ∧
      ∃ role, ReadRole.of? source read = some role ∧ role.Effective) := by
    intro noMember
    refine iff_of_false id ?_
    rintro ⟨rfl, _⟩
    exact noMember member
  rw [Evidence.note]
  split_ifs with isMember
  · exact coherent.noteRead_touches known reads sits inside
  · exact (coherent.noteCall_touches inside _).congr (other isMember)
  · exact (coherent.noteIdentifier_touches inside _).congr (other isMember)
  · exact (coherent.noteDeclarator_touches inside member).congr (other isMember)
  · exact (coherent.untouched _).congr (other isMember)

/-- Closing and judging the evidence marks no other reads. -/
theorem Coherent.marks_judge_close_iff
    (coherent : evidence.Coherent source conventions file tree) (span : Span) :
    (evidence.close.judge source).Marks span ↔ evidence.Marks span := by
  have flow : (evidence.close.judge source).flow = evidence.flow.close.2 := by
    rw [flow_judge, Evidence.close]
  rw [Marks, flow, Flow.close_bindingReads]
  constructor
  · rintro (⟨fact, held, rfl⟩ | marked | ⟨pair, logged, rfl⟩)
    · rcases (coherent.flow.mem_close_methodReads fact).mp held with recorded | derived
      · exact Or.inl ⟨fact, recorded, rfl⟩
      · obtain ⟨_, _, _, recorded, _⟩ := derived
        exact Or.inl ⟨_, recorded, rfl⟩
    · exact Or.inr (Or.inl marked)
    · cases (coherent.mem_seen_judge_close_iff pair).mp logged with
      | direct found => exact Or.inr (Or.inr ⟨_, found, rfl⟩)
      | helper _ _ recorded => exact Or.inl ⟨_, recorded, rfl⟩
      | identifier _ held => exact Or.inr (Or.inl ⟨_, held, rfl⟩)
  · rintro (⟨fact, held, rfl⟩ | marked | ⟨pair, logged, rfl⟩)
    · exact Or.inl ⟨fact, (coherent.flow.mem_close_methodReads fact).mpr (Or.inl held), rfl⟩
    · exact Or.inr (Or.inl marked)
    · exact Or.inr (Or.inr ⟨pair, (coherent.mem_seen_judge_close_iff pair).mpr (.direct logged),
        rfl⟩)

/-- A read in a component is marked in the end exactly if its role has an effect on it. -/
theorem marks_ofTree_iff_effective (source : Source) (conventions : Conventions) (file : String)
    {read : Node} (inside : read ∈ tree.nodes) (known : tree.KnowsBySpan read)
    {component : Component} (reads : read.readsState source = true)
    (sits : Component.around? source conventions read = some component) :
    (ofTree source conventions file tree).Marks read.span ↔
      ∃ role, ReadRole.of? source read = some role ∧ role.Effective := by
  have noted := (coherent_initial source conventions file tree).foldl_touches read.span
    fun node (member : node ∈ tree.nodes) _ coherent =>
      coherent.note_touches known reads sits member
  have unmarked : ¬ (initial file tree).Marks read.span := by
    rw [marks_iff]
    rintro ⟨sign, held, _⟩
    exact not_holds_initial file tree sign held
  rw [ofTree, ofNodes, stackWalk_eq_nodes, noteAll, noted.coherent.marks_judge_close_iff,
    noted.marks, or_iff_right unmarked]
  constructor
  · rintro ⟨_, _, _, effective⟩
    exact effective
  · intro effective
    exact ⟨read, inside, rfl, effective⟩

end Evidence

/-- The class or object that defines a component has no role for a read. -/
theorem Component.at?_node_eq_none {source : Source} {conventions : Conventions} {read : Node}
    {component : Component} (sits : around? source conventions read = some component) :
    ReadRole.at? source read component.node = none := by
  have kind : component.node.kind ∈ "object" :: classKinds :=
    List.mem_cons.mpr (kind_of_decide? (decide?_of_around? sits).2).symm
  have roleless : ∀ kind ∈ "object" :: classKinds,
      kind ≠ "call_expression" ∧ kind ∉ functionKinds ∧ kind ≠ "variable_declarator" := by
    decide
  obtain ⟨noCall, noFunction, noDeclarator⟩ := roleless _ kind
  exact ReadRole.at?_eq_none_of_kind noCall noFunction noDeclarator

/-- **Reads at the top of a component.** Let a read in a component have no role between
itself and the node that defines the component, and let no other node have its span. Then
nothing is recorded of it and it is not reported, unless the nearest role that something
around the component has for it has an effect. -/
theorem marks_ofTree_iff (source : Source) (conventions : Conventions) (file : String)
    {tree : Tree} {read : Node} (inside : read ∈ tree.nodes) (known : tree.KnowsBySpan read)
    {component : Component} (reads : read.readsState source = true)
    (sits : Component.around? source conventions read = some component)
    {between around : List Node} (split : read.ancestors = between ++ component.node :: around)
    (roleless : ∀ ancestor ∈ between, ReadRole.at? source read ancestor = none) :
    (Evidence.ofTree source conventions file tree).Marks read.span ↔
      ∃ role, around.findSome? (ReadRole.at? source read) = some role ∧ role.Effective := by
  have nearest : ReadRole.of? source read = around.findSome? (ReadRole.at? source read) := by
    rw [ReadRole.of?, Node.nearest?, split, List.findSome?_append,
      List.findSome?_eq_none_iff.mpr roleless, Option.none_or, List.findSome?_cons,
      Component.at?_node_eq_none sits]
  rw [Evidence.marks_ofTree_iff_effective source conventions file inside known reads sits, nearest]

/-- A component in a declarator, with a read of the state at its top. -/
def fieldSource : Source :=
  .ofText "const A=class extends C{x=this.state.a}"

/-- The tree of the component, down to the nodes that matter. -/
def fieldTree : Tree :=
  ⟨"program", true, none, 0, 39, [
    ⟨"lexical_declaration", true, none, 0, 39, [
      ⟨"variable_declarator", true, none, 6, 39, [
        ⟨"identifier", true, some "name", 6, 7, []⟩,
        ⟨"class", true, some "value", 8, 39, [
          ⟨"class_heritage", true, none, 14, 23, [⟨"identifier", true, none, 22, 23, []⟩]⟩,
          ⟨"class_body", true, some "body", 23, 39, [
            ⟨"field_definition", true, none, 24, 38, [
              ⟨"property_identifier", true, some "property", 24, 25, []⟩,
              ⟨"member_expression", true, some "value", 26, 38, [
                ⟨"member_expression", true, some "object", 26, 36, [
                  ⟨"this", true, some "object", 26, 30, []⟩,
                  ⟨"property_identifier", true, some "property", 31, 36, []⟩]⟩,
                ⟨"property_identifier", true, some "property", 37, 38, []⟩]⟩]⟩]⟩]⟩]⟩]⟩]⟩

theorem marks_fieldTree :
    fieldTree.KnowsBySpan fieldTree.nodes[11] ∧
      (Evidence.ofTree fieldSource plainConventions "a.js" fieldTree).Marks
        fieldTree.nodes[11].span := by
  have distinct : fieldTree.SpansDistinct := by decide
  have inside : fieldTree.nodes[11] ∈ fieldTree.nodes := List.getElem_mem _
  have sits : Component.around? fieldSource plainConventions fieldTree.nodes[11] =
      some ⟨fieldTree.nodes[4], none, .classBody⟩ := rfl
  have split : fieldTree.nodes[11].ancestors =
      [fieldTree.nodes[10], fieldTree.nodes[8], fieldTree.nodes[7]] ++ fieldTree.nodes[4] ::
        [fieldTree.nodes[2], fieldTree.nodes[1], fieldTree.nodes[0]] := rfl
  have roleless : ∀ ancestor ∈ [fieldTree.nodes[10], fieldTree.nodes[8], fieldTree.nodes[7]],
      ReadRole.at? fieldSource fieldTree.nodes[11] ancestor = none := by
    simp only [List.forall_mem_cons]
    exact ⟨rfl, rfl, rfl, fun _ member => (List.not_mem_nil member).elim⟩
  refine ⟨distinct.knowsBySpan inside, (marks_ofTree_iff fieldSource plainConventions "a.js" inside
    (distinct.knowsBySpan inside) (by decide) sits split roleless).mpr ?_⟩
  exact ⟨.binding ⟨fieldTree.nodes[2], some fieldTree.nodes[3], some fieldTree.nodes[4]⟩, rfl,
    fieldTree.nodes[3], fieldTree.nodes[3], rfl, List.mem_singleton_self _⟩

end StaleRead
