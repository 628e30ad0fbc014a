import StaleRead.Proofs.Transfer.Basic

/-! # Revising the members of a class

A revision changes the children of one class body, which is found by the slots that lead
there from the root. Every node that does not lie below the body has an image in the revised
tree, and so has every member that stays, in the slot that it then has. The image of a node
keeps its kind, its field and its byte range, and its ancestors are the images of the
ancestors; so the images make a transfer (`Revision.transfer`), which keeps the children of
all nodes but the body.
-/

namespace StaleRead

/-- A revision of the members of one class body: the slots that lead to the body from the
root, what becomes of its children, and the slot that a child has afterwards. -/
structure Revision where
  path : List Nat
  members : List Tree → List Tree
  place : Nat → Nat

/-- A subtree with other members in the class body at the end of a path. `inClass` tells
whether the subtree is the child of a class. A path that leads elsewhere changes nothing. -/
def Tree.revisedAt (members : List Tree → List Tree) : Bool → List Nat → Tree → Tree
  | inClass, [], tree =>
      if inClass && tree.kind == "class_body" then
        { tree with children := members tree.children }
      else
        tree
  | _, slot :: path, tree =>
      { tree with
        children :=
          tree.children.modify slot (revisedAt members (tree.kind ∈ Component.classKinds) path) }

/-- A tree with a class body revised. -/
def Tree.revised (revision : Revision) (tree : Tree) : Tree :=
  tree.revisedAt revision.members false revision.path

/-- Only children are revised. -/
theorem Tree.exists_revisedAt_eq (members : List Tree → List Tree) (inClass : Bool)
    (path : List Nat) (tree : Tree) :
    ∃ children, tree.revisedAt members inClass path = { tree with children } := by
  cases path with
  | nil =>
      rw [revisedAt]
      split
      · exact ⟨_, rfl⟩
      · cases tree
        exact ⟨_, rfl⟩
  | cons slot path => exact ⟨_, rfl⟩

namespace Revision

/-- A method, or any other subtree, is put among the members of a class body, before the
member in the given slot. -/
def insertion (path : List Nat) (slot : Nat) (member : Tree) : Revision where
  path
  members := (·.insertIdx slot member)
  place other := if other < slot then other else other + 1

/-- The members of a class body are replaced. -/
def replacement (path : List Nat) (members : List Tree) : Revision where
  path
  members _ := members
  place := id

variable (revision : Revision)

/-- What is left of the path behind the node that the steps lead to, if the path leads
through the node. -/
def rest : List Step → Option (List Nat)
  | [] => some revision.path
  | step :: above =>
      match rest above with
      | some (slot :: path) => if slot = step.slot then some path else none
      | _ => none

/-- Whether a node is the class body that is revised. -/
def hits (node : Node) : Bool :=
  revision.rest node.above == some [] && node.isClassBody

/-- The subtree of the image of a node. -/
def imageTree (node : Node) : Tree :=
  match revision.rest node.above with
  | none => node.tree
  | some path =>
      node.tree.revisedAt revision.members (node.parent?.any (·.kind ∈ Component.classKinds)) path

/-- The steps above the image of a node. -/
def imageSteps : List Step → List Step
  | [] => []
  | step :: above =>
      let parent : Node := ⟨step.parent, above⟩
      ⟨revision.imageTree parent,
        if revision.hits parent then revision.place step.slot else step.slot⟩ :: imageSteps above

/-- The image of a node in the revised tree. -/
def image (node : Node) : Node :=
  ⟨revision.imageTree node, revision.imageSteps node.above⟩

theorem image_root (tree : Tree) :
    revision.image (Node.root tree) = Node.root (tree.revised revision) :=
  rfl

theorem exists_imageTree_eq (node : Node) :
    ∃ children, revision.imageTree node = { node.tree with children } := by
  rw [imageTree]
  split
  · obtain ⟨tree, above⟩ := node
    cases tree
    exact ⟨_, rfl⟩
  · exact Tree.exists_revisedAt_eq ..

theorem rest_cons (tree : Tree) (slot : Nat) (above : List Step) :
    revision.rest (⟨tree, slot⟩ :: above) =
      match revision.rest above with
      | some (next :: path) => if next = slot then some path else none
      | _ => none := by
  rw [rest]

variable {revision} {node : Node}

theorem children_imageTree_of_hits (hits : revision.hits node = true) :
    (revision.imageTree node).children = revision.members node.tree.children := by
  rw [Revision.hits, Bool.and_eq_true, beq_iff_eq, Node.isClassBody] at hits
  obtain ⟨reached, isBody⟩ := hits
  rw [imageTree, reached]
  simp only [Tree.revisedAt]
  rw [if_pos]
  rwa [Bool.and_comm]

/-- The members of the body that is revised are kept as they are. -/
theorem imageTree_member_of_hits (hits : revision.hits node = true) (member : Tree) (slot : Nat) :
    revision.imageTree ⟨member, ⟨node.tree, slot⟩ :: node.above⟩ = member := by
  rw [Revision.hits, Bool.and_eq_true, beq_iff_eq] at hits
  rw [imageTree, rest_cons, hits.1]

theorem getElem?_children_imageTree (missed : ¬ revision.hits node = true) (slot : Nat) :
    (revision.imageTree node).children[slot]? =
      node.tree.children[slot]?.map fun child =>
        revision.imageTree ⟨child, ⟨node.tree, slot⟩ :: node.above⟩ := by
  cases reached : revision.rest node.above with
  | none => simp [imageTree, rest_cons, reached]
  | some path =>
      cases path with
      | nil =>
          have outside : ¬ (node.parent?.any (·.kind ∈ Component.classKinds) &&
              node.tree.kind == "class_body") = true := by
            rw [Bool.and_comm]
            intro isBody
            exact missed (by rw [Revision.hits, reached]; exact isBody)
          rw [imageTree, reached]
          simp only [Tree.revisedAt]
          rw [if_neg outside]
          simp [imageTree, rest_cons, reached]
      | cons next path =>
          rw [imageTree, reached]
          simp only [Tree.revisedAt, List.getElem?_modify]
          congr 1
          funext child
          rw [imageTree, rest_cons, reached]
          by_cases here : next = slot
          · subst here
            simp only [if_true]
            rfl
          · simp [here]

theorem children_image (missed : ¬ revision.hits node = true) :
    (revision.image node).children = node.children.map revision.image := by
  apply List.ext_getElem?
  intro slot
  rw [List.getElem?_map, Node.getElem?_children, Node.getElem?_children, image,
    getElem?_children_imageTree missed, Option.map_map, Option.map_map]
  congr 1
  funext child
  simp only [Function.comp_apply, image, imageSteps, missed]
  rfl

/-- The images of nodes, as a transfer. -/
def transfer (revision : Revision) : Transfer where
  image := revision.image
  drops _ := false
  keeps node := ¬ revision.hits node = true
  span_image node := by
    obtain ⟨children, same⟩ := revision.exists_imageTree_eq node
    rw [Node.span, image, same, Node.span]
    rfl
  isNamed_image node := by
    obtain ⟨children, same⟩ := revision.exists_imageTree_eq node
    rw [Node.isNamed, image, same, Node.isNamed]
  field?_image node := by
    obtain ⟨children, same⟩ := revision.exists_imageTree_eq node
    rw [Node.field?, image, same, Node.field?]
  parent?_image node := by
    obtain ⟨tree, above⟩ := node
    cases above <;> rfl
  children_image node missed := by
    rw [children_image missed]
    simp
  kind_of_drops dropped := (Bool.false_ne_true dropped).elim
  field?_of_drops dropped := (Bool.false_ne_true dropped).elim
  children_of_drops dropped := (Bool.false_ne_true dropped).elim
  isClassBody_of_not_keeps hit := by
    have isHit := not_not.mp hit
    rw [Revision.hits, Bool.and_eq_true] at isHit
    exact isHit.2

@[simp] theorem image_transfer (revision : Revision) :
    revision.transfer.image = revision.image :=
  rfl

@[simp] theorem images_transfer (revision : Revision) (nodes : List Node) :
    revision.transfer.images nodes = nodes.map revision.image := by
  simp [Transfer.images, transfer]

theorem rest_eq_some_iff {above : List Step} {left : List Nat} :
    revision.rest above = some left ↔ (above.map Step.slot).reverse ++ left = revision.path := by
  induction above generalizing left with
  | nil => rw [rest, Option.some.injEq, eq_comm]; rfl
  | cons step above ih =>
      have onward : revision.rest (step :: above) = some left ↔
          revision.rest above = some (step.slot :: left) := by
        rw [rest]
        split
        · rename_i slot path reached
          rw [reached, Option.ite_none_right_eq_some, Option.some.injEq, Option.some.injEq,
            List.cons.injEq]
        · rename_i other
          exact iff_of_false (by simp) fun reached => other _ _ reached
      rw [onward, ih, List.map_cons, List.reverse_cons, List.append_assoc, List.singleton_append]

/-- The node that is revised is the class body that the path leads to. -/
theorem hits_iff : revision.hits node = true ↔
    node.path = revision.path ∧ node.isClassBody = true := by
  rw [Revision.hits, Bool.and_eq_true, beq_iff_eq, rest_eq_some_iff, List.append_nil, Node.path]

/-- A node does not lie below the class body that is revised. -/
def Spares (revision : Revision) (node : Node) : Prop :=
  ∀ ancestor ∈ node.ancestors, ¬ revision.hits ancestor = true

theorem Spares.child {child : Node} (spared : revision.Spares node)
    (missed : ¬ revision.hits node = true) (member : child ∈ node.children) :
    revision.Spares child := by
  rw [Spares, Node.ancestors_of_parent? (Node.parent?_of_mem_children member)]
  exact List.forall_mem_cons.mpr ⟨missed, spared⟩

theorem Spares.image_mem_nodes {tree : Tree} (spared : revision.Spares node)
    (inside : node ∈ tree.nodes) : revision.image node ∈ (tree.revised revision).nodes := by
  have kept : revision.Spares node → revision.image node ∈ (tree.revised revision).nodes := by
    apply Tree.node_induction inside
    · exact fun _ => Tree.root_mem_nodes _
    · intro parent _ parentKept child member spared
      rw [Spares, Node.ancestors_of_parent? (Node.parent?_of_mem_children member),
        List.forall_mem_cons] at spared
      apply Tree.child_mem_nodes (parentKept spared.2)
      rw [children_image spared.1]
      exact List.mem_map_of_mem member
  exact kept spared

/-- A node of the revised tree lies below the class body or is the image of one that did not. -/
theorem cases_of_mem_nodes {tree : Tree} {revised : Node}
    (inside : revised ∈ (tree.revised revision).nodes) :
    (∃ body ∈ tree.nodes, revision.hits body = true ∧ revision.image body ∈ revised.ancestors) ∨
      ∃ before ∈ tree.nodes, revision.Spares before ∧ revision.image before = revised := by
  apply Tree.node_induction inside
  · refine Or.inr ⟨Node.root tree, Tree.root_mem_nodes tree, ?_, rfl⟩
    exact fun ancestor member => (List.not_mem_nil member).elim
  · intro parent _ cases child member
    rw [Node.ancestors_of_parent? (Node.parent?_of_mem_children member)]
    rcases cases with ⟨body, bodyInside, hit, above⟩ | ⟨before, beforeInside, spared, rfl⟩
    · exact Or.inl ⟨body, bodyInside, hit, List.mem_cons_of_mem _ above⟩
    · by_cases hit : revision.hits before = true
      · exact Or.inl ⟨before, beforeInside, hit, List.mem_cons_self⟩
      · rw [children_image hit] at member
        obtain ⟨childBefore, isChild, rfl⟩ := List.mem_map.mp member
        exact Or.inr ⟨childBefore, Tree.child_mem_nodes beforeInside isChild,
          spared.child hit isChild, rfl⟩

end Revision

end StaleRead
