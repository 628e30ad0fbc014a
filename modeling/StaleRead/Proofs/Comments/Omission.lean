import StaleRead.Proofs.Transfer.Basic

/-! # Trees without some comments

A comment that fills no field and has no children can be left out of a tree. Every other
node then has an image in the smaller tree (`Node.without`): its kind, its field and its
byte range stay as they are, its parent is the image of its parent, and its children are the
images of those of its children that were not left out (`Node.children_without`). So leaving
out comments is a transfer that keeps the children of every node (`Comments.transfer`).
-/

namespace StaleRead

/-- Some comments: nodes that are comments, fill no field and have no children. -/
structure Comments where
  contains : Node → Bool
  kind_eq : ∀ {node : Node}, contains node = true → node.kind = "comment"
  field?_eq : ∀ {node : Node}, contains node = true → node.field? = none
  children_eq : ∀ {node : Node}, contains node = true → node.children = []

namespace Comments

/-- Whether a node is none of the comments. -/
def spares (comments : Comments) (node : Node) : Bool := !comments.contains node

/-- The comments among some nodes that fill no field and have no children. -/
def among (chosen : Node → Bool) : Comments where
  contains node :=
    chosen node && node.kind == "comment" && node.field?.isNone && node.tree.children.isEmpty
  kind_eq := by simp +contextual
  field?_eq := by simp +contextual
  children_eq := by
    intro node contained
    have leaf : node.tree.children = [] := by simpa using (Bool.and_eq_true_iff.mp contained).2
    rw [Node.children, leaf, Node.siblings]

end Comments

namespace Tree

mutual

/-- A subtree at the given steps, without the comments below it. -/
def withoutAt (comments : Comments) : Tree → List Step → Tree
  | ⟨kind, named, field, start, stop, children⟩, above =>
      let tree : Tree := ⟨kind, named, field, start, stop, children⟩
      ⟨kind, named, field, start, stop, withoutAmong comments children tree above 0⟩

/-- Some sibling subtrees, numbered from `slot`, without the comments among and below
them. -/
def withoutAmong (comments : Comments) : List Tree → Tree → List Step → Nat → List Tree
  | [], _, _, _ => []
  | tree :: rest, parent, above, slot =>
      if comments.contains ⟨tree, ⟨parent, slot⟩ :: above⟩ then
        withoutAmong comments rest parent above (slot + 1)
      else
        withoutAt comments tree (⟨parent, slot⟩ :: above) ::
          withoutAmong comments rest parent above (slot + 1)

end

/-- A tree without some comments. -/
def without (comments : Comments) (tree : Tree) : Tree :=
  tree.withoutAt comments []

variable (comments : Comments)

theorem withoutAt_eq (tree : Tree) (above : List Step) :
    tree.withoutAt comments above =
      { tree with children := withoutAmong comments tree.children tree above 0 } := by
  obtain ⟨kind, named, field, start, stop, children⟩ := tree
  rw [withoutAt]

theorem children_withoutAt (tree : Tree) (above : List Step) :
    (tree.withoutAt comments above).children =
      withoutAmong comments tree.children tree above 0 := by
  rw [withoutAt_eq]

theorem withoutAmong_append (first second : List Tree) (parent : Tree) (above : List Step)
    (slot : Nat) :
    withoutAmong comments (first ++ second) parent above slot =
      withoutAmong comments first parent above slot ++
        withoutAmong comments second parent above (slot + first.length) := by
  induction first generalizing slot with
  | nil => simp [withoutAmong]
  | cons tree rest ih =>
      have shift : slot + (tree :: rest).length = slot + 1 + rest.length := by
        rw [List.length_cons]
        omega
      rw [List.cons_append, withoutAmong, withoutAmong, ih, shift]
      split <;> rfl

end Tree

namespace Node

/-- The steps above a node when comments are left out. -/
def stepsWithout (comments : Comments) : List Step → List Step
  | [] => []
  | step :: above =>
      ⟨step.parent.withoutAt comments above,
        (Tree.withoutAmong comments (step.parent.children.take step.slot) step.parent above
          0).length⟩ :: stepsWithout comments above

/-- The image of a node in the tree without some comments. -/
def without (comments : Comments) (node : Node) : Node :=
  ⟨node.tree.withoutAt comments node.above, stepsWithout comments node.above⟩

variable (comments : Comments)

@[simp] theorem span_without (node : Node) : (node.without comments).span = node.span := by
  rw [span, without, Tree.withoutAt_eq]
  rfl

@[simp] theorem isNamed_without (node : Node) :
    (node.without comments).isNamed = node.isNamed := by
  rw [isNamed, without, Tree.withoutAt_eq, isNamed]

@[simp] theorem field?_without (node : Node) :
    (node.without comments).field? = node.field? := by
  rw [field?, without, Tree.withoutAt_eq, field?]

@[simp] theorem parent?_without (node : Node) :
    (node.without comments).parent? = node.parent?.map (without comments) := by
  obtain ⟨tree, above⟩ := node
  cases above <;> rfl

/-- The siblings that are left when comments are left out are renumbered: the number of a
sibling is that of the siblings before it that are left. -/
theorem siblings_without {parent : Tree} (above : List Step) {before trees : List Tree}
    (split : parent.children = before ++ trees) :
    siblings (parent.withoutAt comments above) (stepsWithout comments above)
        (Tree.withoutAmong comments before parent above 0).length
        (Tree.withoutAmong comments trees parent above before.length) =
      ((siblings parent above before.length trees).filter comments.spares).map
        (without comments) := by
  -- The siblings that were passed are kept in `before`, since they number the next one.
  induction trees generalizing before with
  | nil => simp [Tree.withoutAmong, siblings]
  | cons tree rest ih =>
      have splitNext : parent.children = (before ++ [tree]) ++ rest := by
        rw [split, List.append_assoc]
        rfl
      have next := ih splitNext
      rw [Tree.withoutAmong_append, List.length_append, List.length_append, Nat.zero_add,
        List.length_singleton, Tree.withoutAmong, Tree.withoutAmong] at next
      rw [Tree.withoutAmong, siblings, List.filter_cons, Comments.spares]
      cases contained : comments.contains ⟨tree, ⟨parent, before.length⟩ :: above⟩ with
      | true => simpa [contained] using next
      | false =>
          have image : without comments ⟨tree, ⟨parent, before.length⟩ :: above⟩ =
              ⟨tree.withoutAt comments (⟨parent, before.length⟩ :: above),
                ⟨parent.withoutAt comments above,
                  (Tree.withoutAmong comments before parent above 0).length⟩ ::
                    stepsWithout comments above⟩ := by
            rw [without, stepsWithout, split, List.take_left]
          simp only [contained, Bool.false_eq_true, ↓reduceIte, siblings, List.length_singleton,
            Bool.not_false, List.map_cons] at next ⊢
          rw [image, next]

theorem children_without (node : Node) :
    (node.without comments).children =
      (node.children.filter comments.spares).map (without comments) := by
  rw [children, without, Tree.children_withoutAt, children]
  exact siblings_without comments node.above (List.nil_append node.tree.children).symm

example :
    Tree.without (.among fun _ => true)
        ⟨"arguments", true, none, 0, 12, [
          ⟨"comment", true, none, 1, 6, []⟩,
          ⟨"this", true, none, 7, 11, [⟨"comment", true, none, 7, 7, []⟩]⟩]⟩ =
      ⟨"arguments", true, none, 0, 12, [⟨"this", true, none, 7, 11, []⟩]⟩ :=
  rfl

end Node

/-- Leaving out comments drops nothing else, and it keeps the children of every node. -/
@[reducible] def Comments.transfer (comments : Comments) : Transfer where
  image := Node.without comments
  drops := comments.contains
  keeps _ := True
  span_image := Node.span_without comments
  isNamed_image := Node.isNamed_without comments
  field?_image := Node.field?_without comments
  parent?_image := Node.parent?_without comments
  children_image node _ := Node.children_without comments node
  kind_of_drops := comments.kind_eq
  field?_of_drops := comments.field?_eq
  children_of_drops := comments.children_eq
  isClassBody_of_not_keeps dropped := (dropped trivial).elim

theorem root_without (comments : Comments) (tree : Tree) :
    Node.root (tree.without comments) = (Node.root tree).without comments :=
  rfl

end StaleRead
