import StaleRead.Component
import StaleRead.Proofs.Tree.Nodes

/-! # Nodes of an edited tree

Where a tree is edited, the nodes that are left have images in the edited tree. A transfer
is such a map. It keeps the span and the field of a node, and the parent of an image is the
image of the parent. Among the children, some comments may be gone, and the members of a
class body may have become others; everywhere else the children of an image are the images
of the children. So what is found on the way up, in a field or among children of a kind is
found again, and it is the image of what was found before.
-/

namespace StaleRead

/-- Whether a node is the body of a class. -/
def Node.isClassBody (node : Node) : Bool :=
  node.kind == "class_body" && node.parent?.any (·.kind ∈ Component.classKinds)

/-- A map of the nodes of a tree to those of an edited one. It drops some comments that fill
no field and have no children, and it may be that it does not keep the children of a class
body. -/
structure Transfer where
  image : Node → Node
  drops : Node → Bool
  keeps : Node → Prop
  span_image : ∀ node, (image node).span = node.span
  isNamed_image : ∀ node, (image node).isNamed = node.isNamed
  field?_image : ∀ node, (image node).field? = node.field?
  parent?_image : ∀ node, (image node).parent? = node.parent?.map image
  children_image : ∀ node, keeps node →
    (image node).children = (node.children.filter (!drops ·)).map image
  kind_of_drops : ∀ {node}, drops node = true → node.kind = "comment"
  field?_of_drops : ∀ {node}, drops node = true → node.field? = none
  children_of_drops : ∀ {node}, drops node = true → node.children = []
  isClassBody_of_not_keeps : ∀ {node}, ¬ keeps node → node.isClassBody = true

/-- Elements from which nothing is gathered can be passed over. -/
theorem flatMap_filter {α β : Type} {wanted : α → Bool} {gather : α → List β}
    (silent : ∀ element, wanted element = false → gather element = []) (elements : List α) :
    (elements.filter wanted).flatMap gather = elements.flatMap gather := by
  induction elements with
  | nil => rfl
  | cons element rest ih =>
      rw [List.flatMap_cons, ← ih, List.filter_cons]
      cases passed : wanted element with
      | true => rfl
      | false => rw [silent element passed]; rfl

namespace Transfer

attribute [simp] span_image isNamed_image field?_image parent?_image

section Images

variable (transfer : Transfer) {node : Node}

@[simp] theorem kind_image (node : Node) : (transfer.image node).kind = node.kind :=
  congrArg Span.kind (transfer.span_image node)

@[simp] theorem text_image (source : Source) (node : Node) :
    (transfer.image node).text source = node.text source :=
  congrArg (fun span : Span => source.text span.start span.stop) (transfer.span_image node)

@[simp] theorem ancestors_image (node : Node) :
    (transfer.image node).ancestors = node.ancestors.map transfer.image := by
  obtain ⟨tree, above⟩ := node
  induction above generalizing tree with
  | nil =>
      rw [Node.ancestors_eq, parent?_image]
      rfl
  | cons step above ih =>
      rw [Node.ancestors_eq, parent?_image]
      exact congrArg (_ :: ·) (ih step.parent)

theorem above_image_nil (tree : Tree) : (transfer.image ⟨tree, []⟩).above = [] := by
  have sits : (transfer.image ⟨tree, []⟩).parent? = none := transfer.parent?_image _
  cases split : (transfer.image ⟨tree, []⟩).above with
  | nil => rfl
  | cons step above => simp [Node.parent?, split] at sits

/-- The first step above an image leads to the image of the parent. -/
theorem above_image_cons (tree : Tree) (step : Step) (above : List Step) :
    ∃ slot, (transfer.image ⟨tree, step :: above⟩).above =
      ⟨(transfer.image ⟨step.parent, above⟩).tree, slot⟩ ::
        (transfer.image ⟨step.parent, above⟩).above := by
  have sits : (transfer.image ⟨tree, step :: above⟩).parent? =
      some (transfer.image ⟨step.parent, above⟩) := transfer.parent?_image _
  cases split : (transfer.image ⟨tree, step :: above⟩).above with
  | nil => simp [Node.parent?, split] at sits
  | cons upper farther =>
      rw [Node.parent?, split] at sits
      rw [← Option.some.inj sits]
      exact ⟨upper.slot, rfl⟩

theorem nearest?_image {α β : Type} {before : Node → Option α} {after : Node → Option β}
    {image : α → β} (same : ∀ node, after (transfer.image node) = (before node).map image)
    (node : Node) :
    (transfer.image node).nearest? after = (node.nearest? before).map image := by
  have asked : after ∘ transfer.image = Option.map image ∘ before := funext same
  rw [Node.nearest?, ancestors_image, List.findSome?_map, asked, Node.nearest?,
    List.map_findSome?]

theorem keeps_of_kind (other : node.kind ≠ "class_body") : transfer.keeps node := by
  by_contra dropped
  have isBody := transfer.isClassBody_of_not_keeps dropped
  rw [Node.isClassBody, Bool.and_eq_true, beq_iff_eq] at isBody
  exact other isBody.1

theorem keeps_of_kind_eq {kind : String} (same : node.kind = kind)
    (other : kind ≠ "class_body") : transfer.keeps node :=
  transfer.keeps_of_kind (same ▸ other)

theorem keeps_of_parent? {parent : Node} (sits : node.parent? = some parent)
    (other : parent.kind ∉ Component.classKinds) : transfer.keeps node := by
  by_contra dropped
  have isBody := transfer.isClassBody_of_not_keeps dropped
  rw [Node.isClassBody, sits] at isBody
  simp [other] at isBody

theorem keeps_of_child? {parent child : Node} {field : String}
    (fills : parent.child? field = some child) (other : parent.kind ∉ Component.classKinds) :
    transfer.keeps child :=
  transfer.keeps_of_parent? (Node.parent?_of_mem_children (Node.mem_children_of_child? fills)) other

/-- The images of those of some nodes that are not dropped. -/
def images (nodes : List Node) : List Node :=
  (nodes.filter (!transfer.drops ·)).map transfer.image

theorem images_cons_of_not_drops (left : ¬ transfer.drops node = true) (rest : List Node) :
    transfer.images (node :: rest) = transfer.image node :: transfer.images rest := by
  rw [images, List.filter_cons_of_pos (by simpa using left), List.map_cons, images]

theorem images_cons_of_drops (dropped : transfer.drops node = true) (rest : List Node) :
    transfer.images (node :: rest) = transfer.images rest := by
  rw [images, List.filter_cons_of_neg (by simpa using dropped), images]

variable {transfer}

/-- What is gathered from nodes, if nothing is gathered from those that are dropped, is
gathered from their images. -/
theorem flatMap_images {α β : Type} {before : Node → List α} {after : Node → List β}
    {image : α → β} {nodes : List Node}
    (same : ∀ node ∈ nodes, ¬ transfer.drops node = true →
      after (transfer.image node) = (before node).map image)
    (silent : ∀ node, transfer.drops node = true → before node = []) :
    (transfer.images nodes).flatMap after = (nodes.flatMap before).map image := by
  have gathered : ∀ node ∈ nodes.filter (!transfer.drops ·),
      after (transfer.image node) = (before node).map image := by
    intro node member
    obtain ⟨among, left⟩ := List.mem_filter.mp member
    exact same node among (by simpa using left)
  rw [images, List.flatMap_map, List.flatMap_congr gathered, ← List.map_flatMap,
    flatMap_filter]
  intro node dropped
  exact silent node (by simpa using dropped)

/-- What is chosen among nodes by a property of none that is dropped is chosen among their
images. -/
theorem filter_images {wanted : Node → Bool}
    (same : ∀ node, wanted (transfer.image node) = wanted node)
    (silent : ∀ node, transfer.drops node = true → wanted node = false) (nodes : List Node) :
    (transfer.images nodes).filter wanted = (nodes.filter wanted).map transfer.image := by
  induction nodes with
  | nil => rfl
  | cons node rest ih =>
      by_cases dropped : transfer.drops node = true
      · rw [transfer.images_cons_of_drops dropped, ih, List.filter_cons, silent node dropped]
        rfl
      · rw [transfer.images_cons_of_not_drops dropped, List.filter_cons, List.filter_cons, same,
          ih]
        split <;> rfl

theorem find?_images {wanted : Node → Bool}
    (same : ∀ node, wanted (transfer.image node) = wanted node)
    (silent : ∀ node, transfer.drops node = true → wanted node = false) (nodes : List Node) :
    (transfer.images nodes).find? wanted = (nodes.find? wanted).map transfer.image := by
  rw [← List.head?_filter, filter_images same silent, List.head?_map, List.head?_filter]

theorem filter_kind_images (wanted : String → Bool) (silent : wanted "comment" = false)
    (nodes : List Node) :
    (transfer.images nodes).filter (fun node => wanted node.kind) =
      (nodes.filter fun node => wanted node.kind).map transfer.image := by
  apply filter_images
  · intro node
    rw [kind_image]
  · intro node dropped
    rw [transfer.kind_of_drops dropped, silent]

theorem any_kind_images (wanted : String → Bool) (silent : wanted "comment" = false)
    (nodes : List Node) :
    (transfer.images nodes).any (fun node => wanted node.kind) =
      nodes.any fun node => wanted node.kind := by
  have chosen (nodes : List Node) : nodes.any (fun node => wanted node.kind) =
      (nodes.filter fun node => wanted node.kind).any fun _ => true := by
    simp only [List.any_filter, Bool.and_true]
  rw [chosen, filter_kind_images wanted silent, List.any_map, chosen nodes, Function.comp_def]

end Images

section Children

variable {transfer : Transfer} {node : Node} (keeps : transfer.keeps node)

include keeps

theorem namedChildren_image :
    (transfer.image node).namedChildren = transfer.images node.namedChildren := by
  have named : Node.isNamed ∘ transfer.image = Node.isNamed := funext transfer.isNamed_image
  rw [Node.namedChildren, transfer.children_image node keeps, List.filter_map, named,
    Node.namedChildren, images, List.filter_comm]

theorem filter_namedChildren_image (wanted : String → Bool) (silent : wanted "comment" = false) :
    (transfer.image node).namedChildren.filter (fun child => wanted child.kind) =
      (node.namedChildren.filter fun child => wanted child.kind).map transfer.image := by
  rw [namedChildren_image keeps, filter_kind_images wanted silent]

/-- No comment that is dropped fills a field. -/
theorem child?_image (field : String) :
    (transfer.image node).child? field = (node.child? field).map transfer.image := by
  have kept : (transfer.image node).children = transfer.images node.children :=
    transfer.children_image node keeps
  rw [Node.child?, kept, find?_images, Node.child?]
  · intro child
    rw [field?_image]
  · intro child dropped
    rw [transfer.field?_of_drops dropped]
    rfl

end Children

theorem walk_of_drops (transfer : Transfer) {node : Node} (dropped : transfer.drops node = true) :
    node.walk = [node] := by
  rw [Node.walk_eq, transfer.children_of_drops dropped, List.flatMap_nil]

/-- Where the children of all nodes are kept, a walk passes the images of the nodes below its
start that are left. -/
theorem walk_image {transfer : Transfer} (keeps : ∀ node, transfer.keeps node) (node : Node) :
    (transfer.image node).walk =
      transfer.image node :: transfer.images (node.children.flatMap Node.walk) := by
  induction node using Node.children_induction with
  | step node ih =>
      have kept : ∀ child ∈ node.children, ¬ transfer.drops child = true →
          (transfer.image child).walk = transfer.images child.walk := by
        intro child member left
        rw [ih child member, Node.walk_eq child, images_cons_of_not_drops transfer left]
      have silent : ∀ child, transfer.drops child = true →
          child.walk.filter (!transfer.drops ·) = [] := by
        intro child dropped
        rw [walk_of_drops transfer dropped]
        simp [dropped]
      rw [Node.walk_eq, transfer.children_image node (keeps node), images, List.filter_flatMap]
      exact congrArg (_ :: ·) (flatMap_images kept silent)

end Transfer

end StaleRead
