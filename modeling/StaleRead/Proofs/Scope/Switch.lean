import Mathlib.Data.List.Find
import StaleRead.Proofs.Analysis.Flagged

/-! # Names in switches

A switch body is a scope, and the grammar puts its statements into cases. What a block
declares is looked for among its own children, and these are cases here, so a switch body
declares nothing (`Node.declarations_eq_nil_of_cases`) and names are resolved as if it were
no scope at all (`Node.homeScope_eq_of_cases`). A name that is declared in two switches is
therefore one name to the analysis, and a read that the one is bound to is reported for the
uses of the other (`Scopes.declaring_beyond_switches`).
-/

namespace StaleRead

/-- The kinds of nodes that the grammar names in a switch body. -/
def switchPartKinds : List String :=
  ["switch_case", "switch_default", "comment", "html_comment"]

/-- The switch bodies of a tree hold their statements in cases, as the grammar has it. -/
def Tree.SwitchesHoldCases (tree : Tree) : Prop :=
  ∀ body ∈ tree.nodes, body.kind = "switch_body" →
    ∀ part ∈ body.namedChildren, part.kind ∈ switchPartKinds

instance (tree : Tree) : Decidable tree.SwitchesHoldCases :=
  inferInstanceAs (Decidable (∀ body ∈ tree.nodes, body.kind = "switch_body" →
    ∀ part ∈ body.namedChildren, part.kind ∈ switchPartKinds))

namespace Node

variable {source : Source} {tree : Tree}

/-- Parts of a switch are no declarations, whatever they hold. -/
theorem statementDeclarations_eq_nil_of_part {part : Node} (kind : part.kind ∈ switchPartKinds) :
    part.statementDeclarations = [] := by
  have plain : ∀ kind ∈ switchPartKinds, kind ≠ "export_statement" ∧
      kind ≠ "lexical_declaration" ∧ kind ∉ namedDeclarationKinds := by
    decide
  obtain ⟨noExport, noLexical, noNamed⟩ := plain _ kind
  simp only [statementDeclarations, declaration?, noExport, noLexical, noNamed, ↓reduceIte]

theorem declarations_eq_nil_of_cases {body : Node} (kind : body.kind = "switch_body")
    (cases : ∀ part ∈ body.namedChildren, part.kind ∈ switchPartKinds) :
    body.declarations = [] := by
  have block : body.declarations = body.blockDeclarations := by
    have noFunction : "switch_body" ∉ functionKinds := by decide
    unfold declarations
    rw [kind, if_neg noFunction]
    simp
  rw [block, blockDeclarations, List.flatMap_eq_nil_iff]
  intro part member
  exact statementDeclarations_eq_nil_of_part (cases part member)

/-- The scope that a node's text belongs to if switch bodies are passed over. -/
def homeBeyondSwitches (source : Source) (tree : Tree) (node : Node) : Node :=
  ((node.scopes.filter (·.kind != "switch_body")).find? fun scope =>
    node.text source ∈ scope.declaredNames source).getD (root tree)

theorem homeScope_eq_of_cases (source : Source) (cases : tree.SwitchesHoldCases) {node : Node}
    (inside : node ∈ tree.nodes) :
    node.homeScope source tree = node.homeBeyondSwitches source tree := by
  rw [homeScope, declaringScope?, homeBeyondSwitches, List.find?_filter]
  congr 1
  apply List.find?_congr
  intro scope member
  by_cases kind : scope.kind = "switch_body"
  · have scopeInside := Tree.mem_nodes_of_mem_ancestors inside (mem_scopes member)
    have nothing : scope.declaredNames source = [] := by
      rw [declaredNames, declarations_eq_nil_of_cases kind (cases scope scopeInside kind)]
      rfl
    simp [nothing]
  · simp [kind]

/-- A switch body is never the scope that a name belongs to. -/
theorem kind_homeBeyondSwitches_ne (source : Source) (program : tree.kind ≠ "switch_body")
    (node : Node) : (node.homeBeyondSwitches source tree).kind ≠ "switch_body" := by
  rw [homeBeyondSwitches]
  cases found : (node.scopes.filter (·.kind != "switch_body")).find? fun scope =>
      node.text source ∈ scope.declaredNames source with
  | none => exact program
  | some scope =>
      have kept := (List.mem_filter.mp (List.mem_of_find?_eq_some found)).2
      exact bne_iff_ne.mp kept

end Node

/-- **Names are resolved past switches.** Let the switch bodies of a tree hold cases. After
any questions, a name is resolved as if switch bodies were no scopes, so never to a switch
body. Hence a read that is bound to a name is reported for each use of a name of the same
spelling in a state update, if the two only differ in the switches that declare them. -/
theorem Scopes.declaring_beyond_switches (source : Source) {tree : Tree}
    (distinct : tree.SpansDistinct) (program : tree.kind ≠ "switch_body")
    (cases : tree.SwitchesHoldCases) {questions : List Question}
    (asked : ∀ question ∈ questions, question.node ∈ tree.nodes) :
    (∀ node ∈ tree.nodes,
      ((after source tree questions).declaring source node).1 =
          (node.homeBeyondSwitches source tree).span ∧
        ∀ body ∈ tree.nodes, body.kind = "switch_body" →
          ((after source tree questions).declaring source node).1 ≠ body.span) ∧
    ∀ (conventions : Conventions) (file : String) (binding read use : Node),
      binding.BoundTo source conventions tree read → use ∈ tree.nodes →
        use.UsedInUpdate source → use.text source = binding.text source →
          use.homeBeyondSwitches source tree = binding.homeBeyondSwitches source tree →
            (read.span, some use.span) ∈
              (Evidence.ofTree source conventions file tree).log.seen := by
  constructor
  · intro node inside
    have home : ((after source tree questions).declaring source node).1 =
        (node.homeBeyondSwitches source tree).span := by
      rw [declaring_after source distinct asked inside,
        Node.homeScope_eq_of_cases source cases inside]
    refine ⟨home, ?_⟩
    intro body _ kind same
    have other := Node.kind_homeBeyondSwitches_ne source program node
    have sameKind : (node.homeBeyondSwitches source tree).kind = body.kind :=
      congrArg Span.kind (home.symm.trans same)
    exact other (sameKind.trans kind)
  · intro conventions file binding read use bound inside uses text home
    have scope : use.homeScope source tree = binding.homeScope source tree := by
      rw [Node.homeScope_eq_of_cases source cases inside,
        Node.homeScope_eq_of_cases source cases bound.binding_mem_nodes, home]
    have flagged : Flagged source conventions tree read (some use) :=
      .identifier bound inside uses scope text
    exact flagged.logged distinct file

/-- A component with two methods that declare a name in a switch each. The first one binds
it to the state, and the second one uses its own in a state update. -/
def switchSource : Source :=
  .ofText ("class A extends C\x7bm(v){switch(v){case 1:const s=this.state}}" ++
    "n(v){switch(v){case 1:const s=0;this.setState({s})}}\x7d")

/-- The tree of the component, down to the nodes that matter. -/
def switchTree : Tree :=
  ⟨"program", true, none, 0, 113, [
    ⟨"class_declaration", true, none, 0, 113, [
      ⟨"class_heritage", true, none, 8, 17, [⟨"identifier", true, none, 16, 17, []⟩]⟩,
      ⟨"class_body", true, some "body", 17, 113, [
        ⟨"method_definition", true, none, 18, 60, [
          ⟨"statement_block", true, some "body", 22, 60, [
            ⟨"switch_statement", true, none, 23, 59, [
              ⟨"switch_body", true, some "body", 32, 59, [
                ⟨"switch_case", true, none, 33, 58, [
                  ⟨"lexical_declaration", true, some "body", 40, 58, [
                    ⟨"variable_declarator", true, none, 46, 58, [
                      ⟨"identifier", true, some "name", 46, 47, []⟩,
                      ⟨"member_expression", true, some "value", 48, 58, [
                        ⟨"this", true, some "object", 48, 52, []⟩,
                        ⟨"property_identifier", true, some "property", 53, 58, []⟩]⟩]⟩]⟩]⟩]⟩]⟩]⟩]⟩,
        ⟨"method_definition", true, none, 60, 112, [
          ⟨"statement_block", true, some "body", 64, 112, [
            ⟨"switch_statement", true, none, 65, 111, [
              ⟨"switch_body", true, some "body", 74, 111, [
                ⟨"switch_case", true, none, 75, 110, [
                  ⟨"lexical_declaration", true, some "body", 82, 91, [
                    ⟨"variable_declarator", true, none, 88, 91, [
                      ⟨"identifier", true, some "name", 88, 89, []⟩,
                      ⟨"number", true, some "value", 90, 91, []⟩]⟩]⟩,
                  ⟨"call_expression", true, some "body", 92, 110, [
                    ⟨"member_expression", true, some "function", 92, 105, [
                      ⟨"this", true, some "object", 92, 96, []⟩,
                      ⟨"property_identifier", true, some "property", 97, 105, []⟩]⟩,
                    ⟨"arguments", true, some "arguments", 105, 110, [
                      ⟨"object", true, none, 106, 109, [
                        ⟨"shorthand_property_identifier", true, none, 107, 108,
                          []⟩]⟩]⟩]⟩]⟩]⟩]⟩]⟩]⟩]⟩]⟩]⟩

theorem mem_seen_switchTree :
    (switchTree.SpansDistinct ∧ switchTree.kind ≠ "switch_body" ∧ switchTree.SwitchesHoldCases ∧
      ∀ question ∈ [Scopes.Question.declaring switchTree.nodes[31]],
        question.node ∈ switchTree.nodes) ∧
    ((Scopes.after switchSource switchTree
        [Scopes.Question.declaring switchTree.nodes[31]]).declaring switchSource
          switchTree.nodes[12]).1 = ⟨0, 113, "program"⟩ ∧
    (⟨48, 58, "member_expression"⟩, some ⟨107, 108, "shorthand_property_identifier"⟩) ∈
      (Evidence.ofTree switchSource plainConventions "a.js" switchTree).log.seen := by
  have distinct : switchTree.SpansDistinct := by decide
  have program : switchTree.kind ≠ "switch_body" := by decide
  have cases : switchTree.SwitchesHoldCases := by decide
  have asked : ∀ question ∈ [Scopes.Question.declaring switchTree.nodes[31]],
      question.node ∈ switchTree.nodes := by
    intro question member
    rw [List.mem_singleton.mp member]
    exact List.getElem_mem _
  obtain ⟨homes, logs⟩ :=
    Scopes.declaring_beyond_switches switchSource distinct program cases asked
  have reads : switchTree.nodes[13].ReadsIn switchSource plainConventions
      ⟨switchTree.nodes[1], none, .classBody⟩
        (.binding ⟨switchTree.nodes[11], some switchTree.nodes[12], some switchTree.nodes[13]⟩) :=
    ⟨by decide, rfl, (ReadRole.of?_eq_some_iff switchSource distinct (List.getElem_mem _) _).mp rfl⟩
  have bound : switchTree.nodes[12].BoundTo switchSource plainConventions switchTree
      switchTree.nodes[13] :=
    .value (List.getElem_mem _) reads ⟨_, rfl, List.mem_singleton_self _⟩
  have uses : switchTree.nodes[31].UsedInUpdate switchSource :=
    ⟨by decide, by decide, (Node.enclosingUpdate?_isSome_iff switchSource distinct
      (List.getElem_mem _)).mp (by decide)⟩
  refine ⟨⟨distinct, program, cases, asked⟩, (homes _ (List.getElem_mem _)).1.trans rfl, ?_⟩
  exact logs plainConventions "a.js" _ _ _ bound (List.getElem_mem _) uses (by decide) rfl

end StaleRead
