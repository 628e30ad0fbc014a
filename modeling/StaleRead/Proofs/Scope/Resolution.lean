import StaleRead.Proofs.Scope.Hoisting

/-! # Resolution by the nearest declaration

A name belongs to the nearest ancestor that is a scope and declares it, and to the root if
there is none (`Node.BelongsTo`). This says nothing of tables: the names of each scope are
worked out afresh. The table of scopes gives that answer after any questions about scopes and
names, so two nodes are resolved to one scope exactly if they belong to one scope
(`Scopes.declaring_eq_iff_of_belongsTo`).
-/

namespace StaleRead

namespace Node

variable {source : Source} {tree : Tree} {node scope : Node}

/-- The node is a scope that declares the name. -/
def Declares (source : Source) (name : String) (scope : Node) : Prop :=
  scope.isScope = true ∧ name ∈ scope.declaredNames source

instance (source : Source) (name : String) (scope : Node) :
    Decidable (scope.Declares source name) :=
  inferInstanceAs (Decidable (_ ∧ _))

/-- The scope that a node's text belongs to. -/
inductive BelongsTo (source : Source) (tree : Tree) (node : Node) : Node → Prop
  /-- The nearest ancestor that declares the text. -/
  | declared {nearer farther : List Node} {scope : Node}
      (split : node.ancestors = nearer ++ scope :: farther)
      (declares : scope.Declares source (node.text source))
      (nearest : ∀ other ∈ nearer, ¬ other.Declares source (node.text source)) :
      BelongsTo source tree node scope
  /-- The root, if no ancestor declares the text. -/
  | undeclared (nowhere : ∀ scope ∈ node.ancestors, ¬ scope.Declares source (node.text source)) :
      BelongsTo source tree node (root tree)

/-- To look among the scopes around a node is to look among its ancestors for scopes. -/
theorem declaringScope?_eq (source : Source) (node : Node) :
    node.declaringScope? source =
      node.ancestors.find? fun scope => scope.Declares source (node.text source) := by
  rw [declaringScope?, scopes, List.find?_filter]
  congr 1
  funext scope
  rw [Bool.eq_iff_iff, decide_eq_true_iff, decide_eq_true_iff, decide_eq_true_iff, Declares]

theorem belongsTo_iff : node.BelongsTo source tree scope ↔ scope = node.homeScope source tree := by
  rw [homeScope]
  constructor
  · intro belongs
    cases belongs with
    | declared split declares nearest =>
        have found : node.declaringScope? source = some scope := by
          rw [declaringScope?_eq, List.find?_eq_some_iff_append]
          exact ⟨decide_eq_true declares, _, _, split, by simpa using nearest⟩
        rw [found, Option.getD_some]
    | undeclared nowhere =>
        have missing : node.declaringScope? source = none := by
          rw [declaringScope?_eq, List.find?_eq_none]
          simpa using nowhere
        rw [missing, Option.getD_none]
  · rintro rfl
    cases found : node.declaringScope? source with
    | none =>
        rw [declaringScope?_eq, List.find?_eq_none] at found
        exact .undeclared (by simpa using found)
    | some scope =>
        rw [declaringScope?_eq, List.find?_eq_some_iff_append] at found
        obtain ⟨declares, nearer, farther, split, nearest⟩ := found
        exact .declared split (of_decide_eq_true declares) (by simpa using nearest)

end Node

/-- **Remembered scopes are the fresh ones.** Let the spans of a tree be distinct. After any
questions, each name is resolved to the scope that it belongs to, and the names of a scope are
those that it declares. So two nodes, asked for after any questions each, are resolved to the
same scope exactly if they belong to the same one. -/
theorem Scopes.declaring_eq_iff_of_belongsTo (source : Source) {tree : Tree}
    (distinct : tree.SpansDistinct) {questions others : List Question}
    (asked : ∀ question ∈ questions, question.node ∈ tree.nodes)
    (othersAsked : ∀ question ∈ others, question.node ∈ tree.nodes) :
    (∀ node ∈ tree.nodes, ∃ scope, node.BelongsTo source tree scope ∧
      ((after source tree questions).declaring source node).1 = scope.span) ∧
    (∀ scope ∈ tree.nodes,
      ((after source tree questions).names source scope).1 = scope.declaredNames source) ∧
    ∀ first ∈ tree.nodes, ∀ second ∈ tree.nodes, ∀ firstScope secondScope,
      first.BelongsTo source tree firstScope → second.BelongsTo source tree secondScope →
        (((after source tree questions).declaring source first).1 =
            ((after source tree others).declaring source second).1 ↔ firstScope = secondScope) := by
  refine ⟨?_, ?_, ?_⟩
  · intro node inside
    exact ⟨_, Node.belongsTo_iff.mpr rfl, declaring_after source distinct asked inside⟩
  · intro scope inside
    exact (reliable_after source asked).declared.ask_eq (distinct.knowsBySpan inside)
  · intro first firstInside second secondInside firstScope secondScope firstHome secondHome
    obtain rfl := Node.belongsTo_iff.mp firstHome
    obtain rfl := Node.belongsTo_iff.mp secondHome
    rw [declaring_after source distinct asked firstInside,
      declaring_after source distinct othersAsked secondInside]
    exact ⟨distinct.eq_of_span_eq (Node.homeScope_mem_nodes source firstInside)
      (Node.homeScope_mem_nodes source secondInside), congrArg Node.span⟩

/-- The name in the head of a loop belongs to the loop, and behind the loop to the program. -/
theorem declaring_hoistTree_ne :
    let asked : List Scopes.Question :=
      [.declaring hoistTree.nodes[19], .names hoistTree.nodes[11]]
    (hoistTree.SpansDistinct ∧ (∀ question ∈ asked, question.node ∈ hoistTree.nodes) ∧
      hoistTree.nodes[13].BelongsTo hoistSource hoistTree hoistTree.nodes[11] ∧
      hoistTree.nodes[20].BelongsTo hoistSource hoistTree hoistTree.nodes[0]) ∧
    hoistTree.nodes[13].text hoistSource = hoistTree.nodes[20].text hoistSource ∧
    ((Scopes.after hoistSource hoistTree asked).declaring hoistSource hoistTree.nodes[13]).1 ≠
      ((Scopes.after hoistSource hoistTree []).declaring hoistSource hoistTree.nodes[20]).1 := by
  intro asked
  have distinct : hoistTree.SpansDistinct := by decide
  have inside : ∀ question ∈ asked, question.node ∈ hoistTree.nodes := by
    simp only [asked, List.forall_mem_cons]
    exact ⟨List.getElem_mem _, List.getElem_mem _, List.forall_mem_nil _⟩
  have split : hoistTree.nodes[13].ancestors =
      [] ++ hoistTree.nodes[11] :: hoistTree.nodes[11].ancestors := rfl
  have loop : hoistTree.nodes[13].BelongsTo hoistSource hoistTree hoistTree.nodes[11] :=
    .declared split (by decide) (List.forall_mem_nil _)
  have program : hoistTree.nodes[20].BelongsTo hoistSource hoistTree hoistTree.nodes[0] :=
    .undeclared (by decide)
  refine ⟨⟨distinct, inside, loop, program⟩, by decide, fun same => ?_⟩
  have homes := (Scopes.declaring_eq_iff_of_belongsTo hoistSource distinct inside
    (List.forall_mem_nil _)).2.2 _ (List.getElem_mem _) _ (List.getElem_mem _) _ _ loop program
  exact absurd (congrArg Node.kind (homes.mp same)) (by decide)

end StaleRead
