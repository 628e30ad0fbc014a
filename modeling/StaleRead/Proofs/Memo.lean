import StaleRead.Component
import StaleRead.Proofs.Tree.Nodes
import StaleRead.Scope.Resolution

/-! # Remembered answers are right

A memo answers for the first node with a span that it was asked about
(`Memo.ask_after_eq_first`). A memo of a tree holds answers that were computed for nodes of
the tree, and asking it keeps that so. A node that is the only one with its span therefore
gets its own answer, whatever was asked before (`Memo.FiledFrom.ask_eq`). So the scope that a
name is resolved to is the nearest one around it that declares it, or else the root, after any
earlier questions (`Scopes.Reliable.declaring_eq`).
-/

namespace StaleRead

namespace Memo

variable {α : Type} {tree : Tree} {compute : Node → α} {memo : Memo α}

/-- Every filed answer was computed for some node of the tree with its span. -/
def FiledFrom (tree : Tree) (compute : Node → α) (memo : Memo α) : Prop :=
  ∀ entry ∈ memo.answers, ∃ node ∈ tree.nodes, node.span = entry.1 ∧ compute node = entry.2

theorem filedFrom_empty : (empty : Memo α).FiledFrom tree compute :=
  fun _ member => (List.not_mem_nil member).elim

theorem mem_answers_of_find? {span : Span} {answer : α} (found : memo.find? span = some answer) :
    (span, answer) ∈ memo.answers := by
  obtain ⟨before, after, split, _⟩ := List.lookup_eq_some_iff.mp found
  rw [split]
  exact List.mem_append_right _ List.mem_cons_self

theorem FiledFrom.ask (filed : memo.FiledFrom tree compute) {node : Node}
    (inside : node ∈ tree.nodes) : (memo.ask compute node).2.FiledFrom tree compute := by
  rw [Memo.ask]
  cases memo.find? node.span with
  | some answer => exact filed
  | none =>
      intro entry member
      rcases List.mem_cons.mp member with rfl | earlier
      · exact ⟨node, inside, rfl, rfl⟩
      · exact filed entry earlier

/-- A node that is known by its span gets its own answer. -/
theorem FiledFrom.ask_eq (filed : memo.FiledFrom tree compute) {node : Node}
    (known : tree.KnowsBySpan node) : (memo.ask compute node).1 = compute node := by
  rw [Memo.ask]
  cases found : memo.find? node.span with
  | none => rfl
  | some answer =>
      obtain ⟨other, inside, same, computed⟩ := filed _ (mem_answers_of_find? found)
      obtain rfl := known other inside same
      exact computed.symm

/-- A memo after questions about some nodes, one after the other. -/
def after (compute : Node → α) (asked : List Node) : Memo α :=
  asked.foldl (fun memo node => (memo.ask compute node).2) empty

/-- Asking about a node files an answer for its span, unless there is one. -/
theorem find?_ask (memo : Memo α) (compute : Node → α) (node : Node) (span : Span) :
    (memo.ask compute node).2.find? span =
      (memo.find? span).or (if node.span = span then some (compute node) else none) := by
  rw [Memo.ask]
  cases found : memo.find? node.span with
  | some answer =>
      by_cases same : node.span = span
      · rw [← same, found, Option.some_or]
      · rw [if_neg same, Option.or_none]
  | none =>
      rw [Memo.find?, Memo.find?, List.lookup_cons]
      by_cases same : node.span = span
      · subst same
        have missing : memo.answers.lookup node.span = none := found
        simp [missing]
      · have other : (span == node.span) = false := beq_false_of_ne (Ne.symm same)
        simp [same, other]

/-- What is filed under a span was computed for the first node with that span that was asked
about. -/
theorem find?_after (compute : Node → α) (asked : List Node) (span : Span) :
    (after compute asked).find? span = (asked.find? (·.span = span)).map compute := by
  -- For any memo to start from: an answer that is filed is never replaced.
  have filed : ∀ memo : Memo α,
      (asked.foldl (fun memo node => (memo.ask compute node).2) memo).find? span =
        (memo.find? span).or ((asked.find? (·.span = span)).map compute) := by
    induction asked with
    | nil => exact fun memo => (Option.or_none).symm
    | cons node rest ih =>
        intro memo
        rw [List.foldl_cons, ih, find?_ask, Option.or_assoc, List.find?_cons]
        by_cases same : node.span = span <;> simp [same]
  rw [after, filed]
  rfl

/-- A question is answered for the first node with the span of the node that was asked about,
this question included. -/
theorem ask_after_eq_first (compute : Node → α) (asked : List Node) (node : Node) :
    ∃ first, (asked ++ [node]).find? (·.span = node.span) = some first ∧
      ((after compute asked).ask compute node).1 = compute first := by
  rw [Memo.ask, find?_after, List.find?_append]
  cases asked.find? (·.span = node.span) with
  | none => exact ⟨node, by simp, rfl⟩
  | some first => exact ⟨first, rfl, rfl⟩

/-- After any questions, a node gets its own answer. -/
theorem ask_after (compute : Node → α) (distinct : tree.SpansDistinct) {asked : List Node}
    (askedInside : asked ⊆ tree.nodes) {node : Node} (inside : node ∈ tree.nodes) :
    ((after compute asked).ask compute node).1 = compute node := by
  obtain ⟨first, found, answer⟩ := ask_after_eq_first compute asked node
  have firstInside : first ∈ tree.nodes := by
    rcases List.mem_append.mp (List.mem_of_find?_eq_some found) with earlier | last
    · exact askedInside earlier
    · rwa [List.mem_singleton.mp last]
  have same : first.span = node.span := by simpa using List.find?_some found
  rw [answer, distinct.eq_of_span_eq firstInside inside same]

end Memo

namespace Node

theorem mem_scopes {node scope : Node} (member : scope ∈ node.scopes) :
    scope ∈ node.ancestors :=
  (List.mem_filter.mp member).1

/-- The scope that a node's text belongs to: the nearest one that declares it, or else
the root. -/
def homeScope (source : Source) (tree : Tree) (node : Node) : Node :=
  (node.declaringScope? source).getD (root tree)

theorem homeScope_mem_nodes (source : Source) {tree : Tree} {node : Node}
    (inside : node ∈ tree.nodes) : node.homeScope source tree ∈ tree.nodes := by
  rw [homeScope]
  cases found : node.declaringScope? source with
  | none => exact Tree.root_mem_nodes tree
  | some scope =>
      exact Tree.mem_nodes_of_mem_ancestors inside (mem_scopes (List.mem_of_find?_eq_some found))

end Node

namespace Scopes

variable {source : Source} {tree : Tree} {scopes : Scopes}

/-- The table is that of the tree, and what it remembers was worked out for scopes of
the tree. -/
structure Reliable (source : Source) (tree : Tree) (scopes : Scopes) : Prop where
  root : scopes.root = tree.span
  declared : scopes.declared.FiledFrom tree (Node.declaredNames source)

theorem reliable_ofTree (source : Source) (tree : Tree) : (ofTree tree).Reliable source tree :=
  ⟨rfl, Memo.filedFrom_empty⟩

theorem Reliable.names (reliable : scopes.Reliable source tree) {scope : Node}
    (inside : scope ∈ tree.nodes) : (scopes.names source scope).2.Reliable source tree :=
  ⟨reliable.root, reliable.declared.ask inside⟩

theorem Reliable.resolve (reliable : scopes.Reliable source tree) (name : String)
    {candidates : List Node} (inside : candidates ⊆ tree.nodes) :
    (scopes.resolve source name candidates).2.Reliable source tree := by
  induction candidates generalizing scopes with
  | nil => exact reliable
  | cons scope outer ih =>
      rw [List.cons_subset] at inside
      simp only [Scopes.resolve]
      split
      · exact reliable.names inside.1
      · exact ih (reliable.names inside.1) inside.2

theorem Reliable.resolve_eq (reliable : scopes.Reliable source tree)
    (distinct : tree.SpansDistinct) (name : String) {candidates : List Node}
    (inside : candidates ⊆ tree.nodes) :
    (scopes.resolve source name candidates).1 =
      ((candidates.find? fun scope => name ∈ scope.declaredNames source).getD
        (Node.root tree)).span := by
  induction candidates generalizing scopes with
  | nil => exact reliable.root
  | cons scope outer ih =>
      rw [List.cons_subset] at inside
      have answer : (scopes.names source scope).1 = scope.declaredNames source :=
        reliable.declared.ask_eq (distinct.knowsBySpan inside.1)
      simp only [Scopes.resolve, answer]
      by_cases declares : name ∈ scope.declaredNames source
      · simp [declares]
      · rw [if_neg declares, ih (reliable.names inside.1) inside.2,
          List.find?_cons_of_neg (by simpa using declares)]

theorem scopes_subset_nodes {node : Node} (inside : node ∈ tree.nodes) :
    node.scopes ⊆ tree.nodes :=
  fun _ member => Tree.mem_nodes_of_mem_ancestors inside (Node.mem_scopes member)

theorem Reliable.declaring (reliable : scopes.Reliable source tree) {node : Node}
    (inside : node ∈ tree.nodes) : (scopes.declaring source node).2.Reliable source tree :=
  reliable.resolve _ (scopes_subset_nodes inside)

/-- A name is resolved to the scope that it belongs to, whatever was asked before. -/
theorem Reliable.declaring_eq (reliable : scopes.Reliable source tree)
    (distinct : tree.SpansDistinct) {node : Node} (inside : node ∈ tree.nodes) :
    (scopes.declaring source node).1 = (node.homeScope source tree).span :=
  reliable.resolve_eq distinct _ (scopes_subset_nodes inside)

/-- What can be asked of the scopes of a tree. -/
inductive Question where
  /-- The scope that a node's text belongs to. -/
  | declaring (node : Node)
  /-- The names that a scope declares. -/
  | names (scope : Node)

/-- The node that a question is about. -/
def Question.node : Question → Node
  | .declaring node => node
  | .names scope => scope

/-- The table after one question. -/
def ask (source : Source) (scopes : Scopes) : Question → Scopes
  | .declaring node => (scopes.declaring source node).2
  | .names scope => (scopes.names source scope).2

/-- The table of a tree after some questions. -/
def after (source : Source) (tree : Tree) (questions : List Question) : Scopes :=
  questions.foldl (ask source) (ofTree tree)

theorem Reliable.ask (reliable : scopes.Reliable source tree) {question : Question}
    (inside : question.node ∈ tree.nodes) : (scopes.ask source question).Reliable source tree := by
  cases question with
  | declaring node => exact reliable.declaring inside
  | names scope => exact reliable.names inside

/-- The table is reliable after any questions about nodes of the tree. -/
theorem reliable_after (source : Source) {questions : List Question}
    (inside : ∀ question ∈ questions, question.node ∈ tree.nodes) :
    (after source tree questions).Reliable source tree := by
  have kept : ∀ {scopes : Scopes}, scopes.Reliable source tree →
      (questions.foldl (Scopes.ask source) scopes).Reliable source tree := by
    induction questions with
    | nil => exact id
    | cons question rest ih =>
        rw [List.forall_mem_cons] at inside
        exact fun reliable => ih inside.2 (reliable.ask inside.1)
  exact kept (reliable_ofTree source tree)

/-- After any questions, a name is resolved to the scope that it belongs to. -/
theorem declaring_after (source : Source) (distinct : tree.SpansDistinct)
    {questions : List Question} (asked : ∀ question ∈ questions, question.node ∈ tree.nodes)
    {node : Node} (inside : node ∈ tree.nodes) :
    ((after source tree questions).declaring source node).1 =
      (node.homeScope source tree).span :=
  (reliable_after source asked).declaring_eq distinct inside

end Scopes

end StaleRead
