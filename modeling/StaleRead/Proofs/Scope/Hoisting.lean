import Mathlib.Data.List.Find
import StaleRead.Proofs.Memo
import StaleRead.Proofs.Shape.Pattern

/-! # Where `var` binds

A `var` declaration belongs to the nearest function around it, or to the program. As a
statement, or at the start of a counting loop, it hoists there through any blocks and loops
(`Node.Hoists.mem_declarations`). In the head of a for-in or for-of loop it does not: the
loop itself declares what its head binds, like the head of a `let` or `const`
(`Node.BoundInHead.mem_declarations`). So the names of statements are resolved to the
function, and a name bound in a head is resolved to the loop, where no use outside the loop
is resolved to (`Scopes.declaring_var`).
-/

namespace StaleRead

/-- Only nodes that the grammar names have children. -/
def Tree.TokensAreLeaves (tree : Tree) : Prop :=
  ∀ node ∈ tree.nodes, node.isNamed = false → node.tree.children = []

instance (tree : Tree) : Decidable tree.TokensAreLeaves :=
  inferInstanceAs (Decidable (∀ node ∈ tree.nodes, node.isNamed = false →
    node.tree.children = []))

namespace Node

variable {source : Source} {tree : Tree} {node : Node}

theorem children_ne_nil_of_mem {child : Node} (member : child ∈ node.children) :
    node.tree.children ≠ [] := by
  rw [← map_tree_children]
  exact List.ne_nil_of_mem (List.mem_map_of_mem member)

theorem isNamed_of_mem_children (tokens : tree.TokensAreLeaves) (inside : node ∈ tree.nodes)
    {child : Node} (member : child ∈ node.children) : node.isNamed = true := by
  by_contra unnamed
  rw [Bool.not_eq_true] at unnamed
  exact children_ne_nil_of_mem member (tokens node inside unnamed)

/-- The nearest function around a node, or the program if there is none. -/
def owner? (node : Node) : Option Node :=
  node.ancestors.find? fun ancestor =>
    ancestor.kind = "program" ∨ ancestor.kind ∈ functionKinds

/-- What the variables of a function or of the program are declared below. -/
def ownedBody? (owner : Node) : Option Node :=
  if owner.kind ∈ functionKinds then owner.child? "body" else some owner

/-- A `var` declaration below the body of its owner binds the identifier. -/
structure Hoists (tree : Tree) (declaration owner binding : Node) : Prop where
  inside : declaration ∈ tree.nodes
  kind : declaration.kind = "variable_declaration"
  binds : binding ∈ declaration.declaratorBindings
  owned : declaration.owner? = some owner
  below : ∃ body, owner.ownedBody? = some body ∧ body ∈ declaration.ancestors

/-- The head of a for-in or for-of loop binds the identifier with `var`. -/
structure BoundInHead (tree : Tree) (loop owner binding : Node) : Prop where
  inside : loop ∈ tree.nodes
  kind : loop.kind = "for_in_statement"
  keyword : ∃ token ∈ loop.children, token.kind = "var"
  binds : binding ∈ bindingsIn "left" loop
  owned : loop.owner? = some owner

/-- What holds of a node and passes from nodes that are no functions to their named children
holds of every declaration that hoists out of the node, and it is a `var` declaration. -/
theorem hoisting_induction {motive : Node → Prop} {declaration : Node}
    (hoists : declaration ∈ node.hoisting) (whole : motive node)
    (part : ∀ outer child : Node, outer.kind ∉ functionKinds → child ∈ outer.namedChildren →
      motive outer → motive child) :
    motive declaration ∧ declaration.kind = "variable_declaration" := by
  induction node using children_induction with
  | step node ih =>
      by_cases isFunction : node.kind ∈ functionKinds
      · rw [hoisting_eq, if_pos isFunction] at hoists
        exact (List.not_mem_nil hoists).elim
      · rw [hoisting_eq, if_neg isFunction, List.mem_append, List.mem_ite_nil_right,
          List.mem_singleton, List.mem_flatMap] at hoists
        rcases hoists with ⟨isVar, rfl⟩ | ⟨child, member, below⟩
        · exact ⟨whole, isVar⟩
        · have isChild := (mem_namedChildren.mp member).1
          exact ih child isChild below (part _ _ isFunction member whole)

/-- Only `var` declarations hoist. -/
theorem kind_of_mem_hoisting {declaration : Node} (hoists : declaration ∈ node.hoisting) :
    declaration.kind = "variable_declaration" :=
  (hoisting_induction (motive := fun _ => True) hoists trivial fun _ _ _ _ => id).2

/-- What hoists out of a node hoists through the nodes between it and a body, if none of
them is a function. -/
theorem mem_flatMap_hoisting_of_between (tokens : tree.TokensAreLeaves)
    {declaration body : Node} {between farther : List Node} (inside : node ∈ tree.nodes)
    (split : node.ancestors = between ++ body :: farther)
    (plain : ∀ ancestor ∈ between, ancestor.kind ∉ functionKinds) (named : node.isNamed = true)
    (hoists : declaration ∈ node.hoisting) : declaration ∈ body.namedChildren.flatMap hoisting := by
  induction between generalizing node with
  | nil =>
      have sits := (parent?_of_ancestors_eq_cons split).1
      have member := (Tree.parent?_mem_nodes inside sits).2
      exact List.mem_flatMap.mpr ⟨node, mem_namedChildren.mpr ⟨member, named⟩, hoists⟩
  | cons parent rest ih =>
      obtain ⟨sits, above⟩ := parent?_of_ancestors_eq_cons split
      obtain ⟨parentInside, member⟩ := Tree.parent?_mem_nodes inside sits
      rw [List.forall_mem_cons] at plain
      have through : declaration ∈ parent.hoisting := by
        rw [hoisting_eq, if_neg plain.1]
        apply List.mem_append_right
        exact List.mem_flatMap.mpr ⟨node, mem_namedChildren.mpr ⟨member, named⟩, hoists⟩
      exact ih parentInside above plain.2 (isNamed_of_mem_children tokens parentInside member)
        through

/-- What a `var` declaration binds hoists to a body around it, if no function stands between
the two. -/
theorem mem_hoistedBindings_of_between (tokens : tree.TokensAreLeaves)
    {declaration body binding : Node} {between farther : List Node}
    (inside : declaration ∈ tree.nodes) (kind : declaration.kind = "variable_declaration")
    (binds : binding ∈ declaration.declaratorBindings)
    (split : declaration.ancestors = between ++ body :: farther)
    (plain : ∀ ancestor ∈ between, ancestor.kind ∉ functionKinds) :
    binding ∈ body.hoistedBindings := by
  have named : declaration.isNamed = true := by
    obtain ⟨declarator, member, _⟩ := List.mem_flatMap.mp binds
    have child := (mem_namedChildren.mp (List.mem_filter.mp member).1).1
    exact isNamed_of_mem_children tokens inside child
  have itself : declaration ∈ declaration.hoisting := by
    have noFunction : declaration.kind ∉ functionKinds := by
      rw [kind]
      decide
    rw [hoisting_eq, if_neg noFunction, if_pos kind]
    exact List.mem_append_left _ (List.mem_singleton_self _)
  have collected := mem_flatMap_hoisting_of_between tokens inside split plain named itself
  exact List.mem_flatMap.mpr ⟨declaration, collected, binds⟩

/-- A function declares what hoists to it. -/
theorem mem_declarations_of_hoisted {function body binding : Node}
    (isFunction : function.kind ∈ functionKinds) (owns : function.child? "body" = some body)
    (hoisted : binding ∈ body.hoistedBindings) : binding ∈ function.declarations := by
  rw [declarations, if_pos isFunction, functionDeclarations, owns]
  exact List.mem_append_right _ hoisted

namespace Hoists

variable {declaration owner binding : Node}

/-- No function stands between a declaration and the body of its owner. -/
theorem exists_between (hoists : Hoists tree declaration owner binding) :
    ∃ body between farther, owner.ownedBody? = some body ∧
      declaration.ancestors = between ++ body :: farther ∧
        ∀ ancestor ∈ between, ancestor.kind ∉ functionKinds := by
  obtain ⟨isOwner, nearer, farther, split, noOwner⟩ :=
    List.find?_eq_some_iff_append.mp hoists.owned
  obtain ⟨body, owns, around⟩ := hoists.below
  have plain : ∀ ancestor ∈ nearer, ancestor.kind ∉ functionKinds := by
    intro ancestor member isFunction
    have refused := noOwner ancestor member
    simp [isFunction] at refused
  have found := owns
  rw [ownedBody?] at owns
  split_ifs at owns with isFunction
  · -- The body is a child of the owner, so it is met before the owner.
    have sits := parent?_of_mem_children (mem_children_of_child? owns)
    have deeper := depth_of_parent? sits
    rw [split, List.mem_append, List.mem_cons] at around
    rcases around with near | rfl | far
    · obtain ⟨between, rest, division⟩ := List.append_of_mem near
      rw [division, List.append_assoc, List.cons_append] at split
      rw [division] at plain
      exact ⟨body, between, _, found, split,
        fun ancestor member => plain ancestor (List.mem_append_left _ member)⟩
    · omega
    · rw [← ancestors_of_ancestors_eq_append split] at far
      have shallower := depth_lt_of_mem_ancestors far
      omega
  · obtain rfl := Option.some.inj owns
    exact ⟨owner, nearer, farther, found, split, plain⟩

/-- A `var` declaration is among those that its owner declares. -/
theorem mem_declarations (hoists : Hoists tree declaration owner binding)
    (tokens : tree.TokensAreLeaves) : binding ∈ owner.declarations := by
  obtain ⟨body, between, farther, owns, split, plain⟩ := hoists.exists_between
  have hoisted : binding ∈ body.hoistedBindings :=
    mem_hoistedBindings_of_between tokens hoists.inside hoists.kind hoists.binds split plain
  rw [ownedBody?] at owns
  split_ifs at owns with isFunction
  · exact mem_declarations_of_hoisted isFunction owns hoisted
  · obtain rfl := Option.some.inj owns
    have isOwner := List.find?_some hoists.owned
    have program : owner.kind = "program" := by simpa [isFunction] using isOwner
    rw [declarations, if_neg isFunction, if_pos program, List.append_assoc]
    exact List.mem_append_left _ hoisted

end Hoists

/-- The scopes around a node are those around its parent, and the parent if it is one. -/
theorem scopes_of_parent? {parent : Node} (sits : node.parent? = some parent) :
    node.scopes = if parent.isScope then parent :: parent.scopes else parent.scopes := by
  rw [scopes, ancestors_of_parent? sits, List.filter_cons]
  rfl

theorem ofKind_eq_inert_of_isScope (scope : node.isScope = true) :
    PatternForm.ofKind node.kind = .inert := by
  have inert : ∀ kind ∈ "program" :: functionKinds ++ blockScopeKinds,
      PatternForm.ofKind kind = .inert := by
    decide
  apply inert
  simpa [isScope, or_assoc] using scope

/-- No scope stands between a pattern and what it binds. -/
theorem scopes_of_mem_bindings {pattern binding : Node} (binds : binding ∈ pattern.bindings) :
    binding.scopes = pattern.scopes := by
  refine binding_induction binds (motive := fun part => part.scopes = pattern.scopes) rfl ?_
  intro outer child form member same
  have noScope : ¬ outer.isScope = true := fun scope => form (ofKind_eq_inert_of_isScope scope)
  rw [scopes_of_parent? (parent?_of_mem_children member), if_neg noScope, same]

namespace BoundInHead

variable {loop owner binding : Node}

/-- A loop declares what its head binds. -/
theorem mem_declarations (bound : BoundInHead tree loop owner binding) :
    binding ∈ loop.declarations := by
  have noFunction : "for_in_statement" ∉ functionKinds := by decide
  have keyword : (loop.children.any fun token => token.kind ∈ declarationKeywords) = true := by
    obtain ⟨token, member, kind⟩ := bound.keyword
    have isKeyword : token.kind ∈ declarationKeywords := by
      rw [kind]
      decide
    exact List.any_eq_true.mpr ⟨token, member, decide_eq_true isKeyword⟩
  unfold declarations
  rw [bound.kind, if_neg noFunction, keyword]
  exact bound.binds

theorem isScope (bound : BoundInHead tree loop owner binding) : loop.isScope = true := by
  rw [Node.isScope, bound.kind]
  decide

/-- The loop is the nearest scope around what its head binds. -/
theorem scopes_eq (bound : BoundInHead tree loop owner binding) :
    binding.scopes = loop :: loop.scopes := by
  have binds := bound.binds
  rw [bindingsIn] at binds
  cases found : loop.child? "left" with
  | none => simp [found] at binds
  | some pattern =>
      rw [found] at binds
      have sits := parent?_of_mem_children (mem_children_of_child? found)
      rw [scopes_of_mem_bindings binds, scopes_of_parent? sits, if_pos bound.isScope]

theorem binding_mem_nodes (bound : BoundInHead tree loop owner binding) :
    binding ∈ tree.nodes := by
  have binds := bound.binds
  rw [bindingsIn] at binds
  cases found : loop.child? "left" with
  | none => simp [found] at binds
  | some pattern =>
      rw [found] at binds
      exact mem_nodes_of_mem_bindings (Tree.child?_mem_nodes bound.inside found) binds

theorem owner_mem_ancestors (bound : BoundInHead tree loop owner binding) :
    owner ∈ loop.ancestors :=
  List.mem_of_find?_eq_some bound.owned

end BoundInHead

theorem mem_declaredNames_of_mem {scope binding : Node} (declared : binding ∈ scope.declarations) :
    binding.text source ∈ scope.declaredNames source :=
  List.mem_map_of_mem declared

/-- A node whose name a scope around it declares belongs to that scope exactly if no nearer
scope declares the name. -/
theorem homeScope_eq_iff (source : Source) (tree : Tree) {scope : Node}
    {nearer farther : List Node} (split : node.scopes = nearer ++ scope :: farther)
    (declared : node.text source ∈ scope.declaredNames source) :
    node.homeScope source tree = scope ↔
      ∀ other ∈ nearer, node.text source ∉ other.declaredNames source := by
  have distinct : node.scopes.Nodup := node.nodup_ancestors.filter _
  have outside : scope ∉ nearer := by
    rw [split, List.nodup_middle, List.nodup_cons] at distinct
    exact fun member => distinct.1 (List.mem_append_left _ member)
  rw [homeScope, declaringScope?, split, List.find?_append,
    List.find?_cons_of_pos (by simpa using declared)]
  cases found : nearer.find? fun other => node.text source ∈ other.declaredNames source with
  | none =>
      refine iff_of_true rfl fun other member => ?_
      simpa using List.find?_eq_none.mp found other member
  | some first =>
      have member := List.mem_of_find?_eq_some found
      have declares : node.text source ∈ first.declaredNames source := by
        simpa using List.find?_some found
      refine iff_of_false (fun home => ?_) fun undeclared => undeclared first member declares
      have same : first = scope := home
      exact outside (same ▸ member)

end Node

namespace Scopes

variable {tree : Tree} {questions : List Question}

/-- After any questions, a node whose name a scope around it declares is resolved to that
scope exactly if no nearer scope declares the name. -/
theorem declaring_eq_span_iff (source : Source) (distinct : tree.SpansDistinct)
    (asked : ∀ question ∈ questions, question.node ∈ tree.nodes) {node scope : Node}
    (inside : node ∈ tree.nodes) {nearer farther : List Node}
    (split : node.scopes = nearer ++ scope :: farther)
    (declared : node.text source ∈ scope.declaredNames source) :
    ((after source tree questions).declaring source node).1 = scope.span ↔
      ∀ other ∈ nearer, node.text source ∉ other.declaredNames source := by
  have around : scope ∈ node.scopes := by
    rw [split]
    exact List.mem_append_right _ List.mem_cons_self
  have scopeInside := scopes_subset_nodes inside around
  have homeInside := Node.homeScope_mem_nodes source inside
  rw [declaring_after source distinct asked inside,
    ← Node.homeScope_eq_iff source tree split declared]
  exact ⟨distinct.eq_of_span_eq homeInside scopeInside, congrArg Node.span⟩

/-- A node is resolved to a scope around it or to the root. -/
theorem eq_root_or_mem_scopes_of_declaring_eq (source : Source) (distinct : tree.SpansDistinct)
    (asked : ∀ question ∈ questions, question.node ∈ tree.nodes) {node scope : Node}
    (inside : node ∈ tree.nodes) (scopeInside : scope ∈ tree.nodes)
    (resolved : ((after source tree questions).declaring source node).1 = scope.span) :
    scope = Node.root tree ∨ scope ∈ node.scopes := by
  rw [declaring_after source distinct asked inside] at resolved
  have home := distinct.eq_of_span_eq (Node.homeScope_mem_nodes source inside) scopeInside resolved
  rw [← home, Node.homeScope]
  cases found : node.declaringScope? source with
  | none => exact Or.inl rfl
  | some first => exact Or.inr (List.mem_of_find?_eq_some found)

/-- **Where `var` binds.** After any questions, each use of a name that a `var` declaration
binds, in a block or not, before or behind it, is resolved to the nearest function around
the declaration, unless a nearer scope declares the name. But an identifier that the head of
a for-in or for-of loop binds with `var` is resolved to the loop, which is not the function,
and so is each use in the loop, unless a nearer scope declares the name; no use outside of
the loop is resolved to it. -/
theorem declaring_var (source : Source) (distinct : tree.SpansDistinct)
    (tokens : tree.TokensAreLeaves)
    (asked : ∀ question ∈ questions, question.node ∈ tree.nodes) :
    (∀ declaration owner binding, Node.Hoists tree declaration owner binding →
      ∀ use ∈ tree.nodes, use.text source = binding.text source →
        ∀ nearer farther, use.scopes = nearer ++ owner :: farther →
          (((after source tree questions).declaring source use).1 = owner.span ↔
            ∀ scope ∈ nearer, use.text source ∉ scope.declaredNames source)) ∧
    ∀ loop owner binding, Node.BoundInHead tree loop owner binding →
      ((after source tree questions).declaring source binding).1 = loop.span ∧
        loop.span ≠ owner.span ∧
        (∀ use ∈ tree.nodes, use.text source = binding.text source →
          ∀ nearer farther, use.scopes = nearer ++ loop :: farther →
            (((after source tree questions).declaring source use).1 = loop.span ↔
              ∀ scope ∈ nearer, use.text source ∉ scope.declaredNames source)) ∧
        ∀ use ∈ tree.nodes, loop ∉ use.scopes →
          ((after source tree questions).declaring source use).1 ≠ loop.span := by
  constructor
  · intro declaration owner binding hoists use inside text nearer farther split
    apply declaring_eq_span_iff source distinct asked inside split
    rw [text]
    exact Node.mem_declaredNames_of_mem (hoists.mem_declarations tokens)
  · intro loop owner binding bound
    have declared : binding.text source ∈ loop.declaredNames source :=
      Node.mem_declaredNames_of_mem bound.mem_declarations
    have deeper := Node.depth_lt_of_mem_ancestors bound.owner_mem_ancestors
    refine ⟨?_, ?_, ?_, ?_⟩
    · have split : binding.scopes = [] ++ loop :: loop.scopes := bound.scopes_eq
      apply (declaring_eq_span_iff source distinct asked bound.binding_mem_nodes split declared).mpr
      exact fun scope member => (List.not_mem_nil member).elim
    · intro same
      have ownerInside := Tree.mem_nodes_of_mem_ancestors bound.inside bound.owner_mem_ancestors
      rw [distinct.eq_of_span_eq bound.inside ownerInside same] at deeper
      exact Nat.lt_irrefl _ deeper
    · intro use inside text nearer farther split
      apply declaring_eq_span_iff source distinct asked inside split
      rwa [text]
    · intro use inside outside resolved
      rcases eq_root_or_mem_scopes_of_declaring_eq source distinct asked inside bound.inside
        resolved with rfl | member
      · exact Nat.not_lt_zero _ deeper
      · exact outside member

end Scopes

/-- A function with a `var` statement in a block and a `var` in the head of a loop. -/
def hoistSource : Source :=
  .ofText "function f(b){{var s=b}for(var a of b)a;return s+a}"

/-- The tree of the function, down to the nodes that matter. -/
def hoistTree : Tree :=
  ⟨"program", true, none, 0, 51, [
    ⟨"function_declaration", true, none, 0, 51, [
      ⟨"identifier", true, some "name", 9, 10, []⟩,
      ⟨"formal_parameters", true, some "parameters", 10, 13, [
        ⟨"identifier", true, none, 11, 12, []⟩]⟩,
      ⟨"statement_block", true, some "body", 13, 51, [
        ⟨"statement_block", true, none, 14, 23, [
          ⟨"variable_declaration", true, none, 15, 22, [
            ⟨"variable_declarator", true, none, 19, 22, [
              ⟨"identifier", true, some "name", 19, 20, []⟩,
              ⟨"identifier", true, some "value", 21, 22, []⟩]⟩]⟩]⟩,
        ⟨"for_in_statement", true, none, 23, 40, [
          ⟨"var", false, some "kind", 27, 30, []⟩,
          ⟨"identifier", true, some "left", 31, 32, []⟩,
          ⟨"identifier", true, some "right", 36, 37, []⟩,
          ⟨"expression_statement", true, some "body", 38, 40, [
            ⟨"identifier", true, none, 38, 39, []⟩]⟩]⟩,
        ⟨"return_statement", true, none, 40, 50, [
          ⟨"binary_expression", true, none, 47, 50, [
            ⟨"identifier", true, some "left", 47, 48, []⟩,
            ⟨"identifier", true, some "right", 49, 50, []⟩]⟩]⟩]⟩]⟩]⟩

theorem declaring_hoistTree :
    (hoistTree.SpansDistinct ∧ hoistTree.TokensAreLeaves ∧
      ∀ question ∈ [Scopes.Question.names hoistTree.nodes[11]], question.node ∈ hoistTree.nodes) ∧
    ((Scopes.after hoistSource hoistTree
        [Scopes.Question.names hoistTree.nodes[11]]).declaring hoistSource
          hoistTree.nodes[19]).1 = ⟨0, 51, "function_declaration"⟩ ∧
    ((Scopes.after hoistSource hoistTree
        [Scopes.Question.names hoistTree.nodes[11]]).declaring hoistSource
          hoistTree.nodes[13]).1 = ⟨23, 40, "for_in_statement"⟩ ∧
    ((Scopes.after hoistSource hoistTree
        [Scopes.Question.names hoistTree.nodes[11]]).declaring hoistSource
          hoistTree.nodes[20]).1 ≠ ⟨23, 40, "for_in_statement"⟩ := by
  have distinct : hoistTree.SpansDistinct := by decide
  have tokens : hoistTree.TokensAreLeaves := by decide
  have asked : ∀ question ∈ [Scopes.Question.names hoistTree.nodes[11]],
      question.node ∈ hoistTree.nodes := by
    intro question member
    rw [List.mem_singleton.mp member]
    exact List.getElem_mem _
  obtain ⟨statements, heads⟩ := Scopes.declaring_var hoistSource distinct tokens asked
  have hoists : Node.Hoists hoistTree hoistTree.nodes[7] hoistTree.nodes[1] hoistTree.nodes[9] :=
    ⟨List.getElem_mem _, by decide, List.mem_singleton_self _, rfl, hoistTree.nodes[5], rfl,
      List.mem_cons_of_mem _ List.mem_cons_self⟩
  have bound : Node.BoundInHead hoistTree hoistTree.nodes[11] hoistTree.nodes[1]
      hoistTree.nodes[13] :=
    ⟨List.getElem_mem _, by decide, ⟨hoistTree.nodes[12], List.mem_cons_self, by decide⟩,
      List.mem_singleton_self _, rfl⟩
  obtain ⟨own, _, _, outside⟩ := heads _ _ _ bound
  refine ⟨⟨distinct, tokens, asked⟩, ?_, own, ?_⟩
  · have split : hoistTree.nodes[19].scopes =
        [hoistTree.nodes[5]] ++ hoistTree.nodes[1] :: [hoistTree.nodes[0]] := rfl
    apply (statements _ _ _ hoists _ (List.getElem_mem _) (by decide) _ _ split).mpr
    simp only [List.forall_mem_singleton]
    decide
  · apply outside _ (List.getElem_mem _)
    have scopes : hoistTree.nodes[20].scopes =
        [hoistTree.nodes[5], hoistTree.nodes[1], hoistTree.nodes[0]] := rfl
    rw [scopes]
    intro member
    have kinds := List.mem_map_of_mem (f := Node.kind) member
    exact absurd kinds (by decide)

end StaleRead
