import StaleRead.Analysis.Judgement
import StaleRead.Proofs.Comments.Omission
import StaleRead.Proofs.Transfer.Scope

/-! # Evidence without some comments

A comment shows nothing, and the image of any other node shows what the node shows, with
the images of the nodes that are remembered (`Evidence.note_without`). What is remembered
is only ever judged by spans and names, so leaving out comments leaves the findings as they
are (`lint_without`).
-/

namespace StaleRead

variable (comments : Comments) (source : Source) (conventions : Conventions)

/-- Every node keeps its children but for the comments, so it gets no new ones. -/
theorem Comments.addsMethods : comments.transfer.AddsMethods :=
  fun node => congrArg (List.filter _) (Node.children_without comments node)

namespace Component

/-- The image of a component in the tree without some comments. -/
def without (component : Component) : Component :=
  component.map (Node.without comments)

@[simp] theorem span_without (component : Component) :
    (component.without comments).span = component.span :=
  Node.span_without comments component.node

theorem around?_without (node : Node) :
    around? source conventions (node.without comments) =
      (around? source conventions node).map (without comments) :=
  comments.transfer.around?_image source conventions node

end Component

namespace Memo

variable {α β : Type}

/-- A memo with other answers under the same spans. -/
def map (image : α → β) (memo : Memo α) : Memo β :=
  ⟨memo.answers.map fun entry => (entry.1, image entry.2)⟩

theorem find?_map (image : α → β) (memo : Memo α) (span : Span) :
    (memo.map image).find? span = (memo.find? span).map image := by
  obtain ⟨answers⟩ := memo
  rw [find?, find?, map]
  induction answers with
  | nil => rfl
  | cons entry rest ih =>
      obtain ⟨other, answer⟩ := entry
      rw [List.map_cons, List.lookup_cons, List.lookup_cons, ih]
      cases span == other <;> rfl

variable {comments}

theorem ask_without {image : α → β} {before : Node → α} {after : Node → β}
    (same : ∀ node, after (node.without comments) = image (before node)) (memo : Memo α)
    (node : Node) :
    (memo.map image).ask after (node.without comments) =
      (image (memo.ask before node).1, (memo.ask before node).2.map image) := by
  rw [ask, ask, Node.span_without, find?_map]
  cases memo.find? node.span with
  | some answer => rfl
  | none =>
      simp only [Option.map_none, same]
      rfl

end Memo

namespace Scopes

theorem names_without (scopes : Scopes) (scope : Node) :
    scopes.names source (scope.without comments) = scopes.names source scope := by
  have declared : (scope.without comments).declaredNames source = scope.declaredNames source :=
    Transfer.declaredNames_image comments.addsMethods source scope
  rw [names, names, Memo.ask, Memo.ask, Node.span_without, declared]

theorem resolve_without (scopes : Scopes) (name : String) (candidates : List Node) :
    scopes.resolve source name (candidates.map (Node.without comments)) =
      scopes.resolve source name candidates := by
  induction candidates generalizing scopes with
  | nil => rfl
  | cons scope outer ih =>
      rw [List.map_cons, resolve, resolve, names_without, Node.span_without]
      simp only [ih]

/-- The text of a node belongs to the scope that it belonged to before. -/
theorem declaring_without (scopes : Scopes) (node : Node) :
    scopes.declaring source (node.without comments) = scopes.declaring source node := by
  rw [declaring, comments.transfer.text_image, comments.transfer.scopes_image, resolve_without,
    declaring]

end Scopes

/-- The image of a remembered call in the tree without some comments. -/
def HelperUse.without (use : HelperUse) : HelperUse :=
  { use with node := use.node.without comments }

/-- The image of a remembered use in the tree without some comments. -/
def BindingUse.without (use : BindingUse) : BindingUse :=
  { use with node := use.node.without comments }

namespace Evidence

/-- The evidence with the images of all nodes that it remembers. -/
def without (evidence : Evidence) : Evidence where
  components := evidence.components.map (Option.map (Component.without comments))
  scopes := evidence.scopes
  flow := evidence.flow
  log := evidence.log
  helperUses := evidence.helperUses.map (HelperUse.without comments)
  bindingUses := evidence.bindingUses.map (BindingUse.without comments)

theorem initial_without (file : String) (tree : Tree) :
    initial file (tree.without comments) = (initial file tree).without comments := by
  have span : (tree.without comments).span = tree.span :=
    Node.span_without comments (Node.root tree)
  rw [initial, Scopes.ofTree, span]
  rfl

theorem component?_without (evidence : Evidence) (node : Node) :
    (evidence.without comments).component? source conventions (node.without comments) =
      ((evidence.component? source conventions node).1.map (Component.without comments),
        (evidence.component? source conventions node).2.without comments) := by
  have asked := Memo.ask_without (Component.around?_without comments source conventions)
    evidence.components node
  simp only [component?, without, asked]

theorem scope_without (evidence : Evidence) (node : Node) :
    (evidence.without comments).scope source (node.without comments) =
      ((evidence.scope source node).1, (evidence.scope source node).2.without comments) := by
  simp only [scope, without, Scopes.declaring_without]

theorem bindIdentifier_without (read : Span) (evidence : Evidence) (binding : Node) :
    bindIdentifier source read (evidence.without comments) (binding.without comments) =
      (bindIdentifier source read evidence binding).without comments := by
  simp only [bindIdentifier, scope_without, comments.transfer.text_image]
  rfl

theorem bindPattern_without (evidence : Evidence) (read : Span) (pattern? : Option Node) :
    (evidence.without comments).bindPattern source read
        (pattern?.map (Node.without comments)) =
      (evidence.bindPattern source read pattern?).without comments := by
  cases pattern? with
  | none => rfl
  | some pattern =>
      simp only [bindPattern, Option.map_some]
      rw [comments.transfer.bindings_image, List.foldl_map]
      exact List.foldl_hom (without comments) (bindIdentifier_without comments source read)

theorem noteRead_without (evidence : Evidence) (node : Node) :
    (evidence.without comments).noteRead source conventions (node.without comments) =
      (evidence.noteRead source conventions node).without comments := by
  rw [noteRead, noteRead, comments.transfer.readsState_image, component?_without,
    comments.transfer.roleOf?_image]
  split
  case isFalse => rfl
  case isTrue =>
    obtain ⟨component?, next⟩ := evidence.component? source conventions node
    cases component? with
    | none => rfl
    | some component =>
        cases ReadRole.of? source node with
        | none => rfl
        | some role =>
            cases role with
            | update call =>
                simp only [Option.map_some, ReadRole.map, Node.span_without]
                rfl
            | function definition =>
                simp only [Option.map_some, ReadRole.map, Node.span_without,
                  Component.span_without]
                rfl
            | binding declarator =>
                simp only [Option.map_some, ReadRole.map, Node.span_without]
                exact bindPattern_without comments source next node.span declarator.pattern?

theorem noteCall_without (evidence : Evidence) {node : Node}
    (isCall : node.kind = "call_expression") :
    (evidence.without comments).noteCall source conventions (node.without comments) =
      (evidence.noteCall source conventions node).without comments := by
  have invoked : (node.without comments).invokedName? source = node.invokedName? source :=
    comments.transfer.invokedName?_image source isCall
  rw [noteCall, noteCall, component?_without]
  obtain ⟨component?, next⟩ := evidence.component? source conventions node
  cases component? with
  | none => rfl
  | some component =>
      simp only [Option.map_some, invoked]
      cases node.invokedName? source with
      | none => rfl
      | some callee =>
          have named : NamedFunction.name? ∘ NamedFunction.map (Node.without comments) =
              NamedFunction.name? := rfl
          simp only [comments.transfer.enclosingFunction?_image,
            comments.transfer.enclosingUpdate?_image, Option.isSome_map, Option.bind_map, named,
            Component.span_without, without]
          split_ifs
          · rw [List.map_append]
            rfl
          · rfl

theorem noteIdentifier_without (evidence : Evidence) (node : Node) :
    (evidence.without comments).noteIdentifier source (node.without comments) =
      (evidence.noteIdentifier source node).without comments := by
  simp only [noteIdentifier, comments.transfer.outermostOperation_image,
    comments.transfer.standsForObject_image, comments.transfer.enclosingUpdate?_image,
    Option.isSome_map, scope_without, comments.transfer.text_image]
  split
  · simp only [without, List.map_append]
    rfl
  · rfl

theorem noteDeclarator_without (evidence : Evidence) (node : Node) :
    (evidence.without comments).noteDeclarator source conventions (node.without comments) =
      (evidence.noteDeclarator source conventions node).without comments := by
  rw [noteDeclarator, noteDeclarator, comments.transfer.fromThis?_image]
  cases TakenProperty.fromThis? source node with
  | none => rfl
  | some properties =>
      simp only [Option.map_some, component?_without]
      obtain ⟨component?, next⟩ := evidence.component? source conventions node
      cases component? with
      | none => rfl
      | some component =>
          simp only [Option.map_some, List.foldl_map]
          refine List.foldl_hom (without comments) fun evidence property => ?_
          rw [← bindPattern_without]
          simp only [TakenProperty.map, Node.span_without]

/-- The image of a node shows what the node shows. -/
theorem note_without (evidence : Evidence) (node : Node) :
    (evidence.without comments).note source conventions (node.without comments) =
      (evidence.note source conventions node).without comments := by
  rw [note, note, comments.transfer.kind_image, noteRead_without, noteIdentifier_without,
    noteDeclarator_without]
  split_ifs with isMember isCall
  · rfl
  · exact noteCall_without comments source conventions evidence isCall
  · rfl
  · rfl
  · rfl

/-- A comment shows nothing. -/
theorem note_of_contains (evidence : Evidence) {node : Node}
    (contained : comments.contains node = true) :
    evidence.note source conventions node = evidence := by
  rw [note, comments.kind_eq contained]
  rfl

theorem noteAll_images (evidence : Evidence) (nodes : List Node) :
    (evidence.without comments).noteAll source conventions (comments.transfer.images nodes) =
      (evidence.noteAll source conventions nodes).without comments := by
  induction nodes generalizing evidence with
  | nil => rfl
  | cons node rest ih =>
      rw [noteAll, noteAll, List.foldl_cons]
      by_cases contained : comments.contains node = true
      · rw [comments.transfer.images_cons_of_drops contained,
          note_of_contains comments source conventions evidence contained]
        exact ih evidence
      · rw [comments.transfer.images_cons_of_not_drops contained, List.foldl_cons, note_without]
        exact ih _

theorem noteAll_nodes_without (evidence : Evidence) (tree : Tree) :
    (evidence.without comments).noteAll source conventions (tree.without comments).nodes =
      (evidence.noteAll source conventions tree.nodes).without comments := by
  -- The root is no child, so it stays even if it is one of the comments.
  rw [Tree.nodes, root_without, comments.transfer.walk_image (fun _ => trivial), Tree.nodes,
    Node.walk_eq, noteAll, List.foldl_cons, note_without, noteAll, List.foldl_cons]
  exact noteAll_images comments source conventions _ _

theorem judgeCall_without (evidence : Evidence) (call : HelperUse) :
    judgeCall source (evidence.without comments) (call.without comments) =
      (judgeCall source evidence call).without comments := by
  have span : (call.without comments).node.span = call.node.span :=
    Node.span_without comments call.node
  rw [judgeCall, judgeCall, span]
  exact List.foldl_hom (without comments) fun evidence fact => rfl

theorem judgeUse_without (evidence : Evidence) (use : BindingUse) :
    judgeUse source (evidence.without comments) (use.without comments) =
      (judgeUse source evidence use).without comments := by
  have span : (use.without comments).node.span = use.node.span :=
    Node.span_without comments use.node
  rw [judgeUse, judgeUse, span]
  exact List.foldl_hom (without comments) fun evidence fact => rfl

theorem judge_without (evidence : Evidence) :
    (evidence.without comments).judge source = (evidence.judge source).without comments := by
  -- Calls first, then uses: both lists hold images, and both loops only look at their spans.
  have calls : (evidence.without comments).helperUses.foldl (judgeCall source)
      (evidence.without comments) =
        (evidence.helperUses.foldl (judgeCall source) evidence).without comments := by
    rw [without, List.foldl_map]
    exact List.foldl_hom (without comments) (judgeCall_without comments source)
  rw [judge, judge, calls]
  rw [without, List.foldl_map]
  exact List.foldl_hom (without comments) (judgeUse_without comments source)

end Evidence

/-- **Comments have no effect.** Leaving out of a tree any comments that fill no field and
have no children leaves the findings in it as they are. -/
theorem lint_without (file : String) (tree : Tree) :
    lint source conventions file (tree.without comments) =
      lint source conventions file tree := by
  have known : Evidence.ofTree source conventions file (tree.without comments) =
      (Evidence.ofTree source conventions file tree).without comments := by
    rw [Evidence.ofTree, Evidence.ofTree, stackWalk_eq_nodes, stackWalk_eq_nodes,
      Evidence.ofNodes, Evidence.ofNodes, Evidence.initial_without,
      Evidence.noteAll_nodes_without, ← Evidence.judge_without]
    rfl
  rw [lint, known, lint]
  rfl

end StaleRead
