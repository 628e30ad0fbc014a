import Mathlib.Data.List.InsertIdx
import StaleRead.Proofs.Members.Revision
import StaleRead.Proofs.Transfer.Sign

/-! # Adding a method

A method that is put among the members of a class has no effect on what stood in the tree:
the other members only move to other slots. A method declares nothing in the body that it
stands in and lets nothing hoist out of it, so every name belongs to the scope that it
belonged to. Facts and calls can only be added, and no report is lost
(`mem_seen_insertion`).
-/

namespace StaleRead

theorem filter_insertIdx {α : Type} {wanted : α → Bool} {element : α}
    (unwanted : wanted element = false) (place : Nat) (elements : List α) :
    (elements.insertIdx place element).filter wanted = elements.filter wanted := by
  induction place generalizing elements with
  | zero => simp [unwanted]
  | succ place ih =>
      cases elements with
      | nil => rfl
      | cons first rest => rw [List.insertIdx_succ_cons, List.filter_cons, ih, List.filter_cons]

namespace Revision

variable {path : List Nat} {slot : Nat} {method : Tree} {tree : Tree} {node : Node}

/-- The children of the class body are those that were there, and the method in its slot. -/
theorem children_image_of_hits (hits : (insertion path slot method).hits node = true) :
    ((insertion path slot method).image node).children =
      (node.children.map (insertion path slot method).image).insertIdx slot
        ⟨method, ⟨(insertion path slot method).imageTree node, slot⟩ ::
          (insertion path slot method).imageSteps node.above⟩ := by
  have moved (place : Nat) : ((insertion path slot method).image node).tree.children[place]? =
      (node.tree.children.insertIdx slot method)[place]? :=
    congrArg (·[place]?) (children_imageTree_of_hits hits)
  have image (child : Tree) (place : Nat) :
      (insertion path slot method).image ⟨child, ⟨node.tree, place⟩ :: node.above⟩ =
        ⟨child, ⟨(insertion path slot method).imageTree node,
          if place < slot then place else place + 1⟩ ::
            (insertion path slot method).imageSteps node.above⟩ := by
    rw [Revision.image, imageTree_member_of_hits hits, imageSteps, if_pos hits]
    rfl
  have length : node.children.length = node.tree.children.length := by
    rw [← Node.map_tree_children, List.length_map]
  have found (place : Nat) : (node.children.map (insertion path slot method).image)[place]? =
      node.tree.children[place]?.map fun child =>
        ⟨child, ⟨(insertion path slot method).imageTree node,
          if place < slot then place else place + 1⟩ ::
            (insertion path slot method).imageSteps node.above⟩ := by
    rw [List.getElem?_map, Node.getElem?_children, Option.map_map]
    congr 1
    funext child
    exact image child place
  apply List.ext_getElem?
  intro place
  rw [Node.getElem?_children, moved]
  rcases Nat.lt_trichotomy place slot with before | rfl | behind
  · rw [List.getElem?_insertIdx_of_lt before, List.getElem?_insertIdx_of_lt before, found,
      if_pos before]
    rfl
  · rw [List.getElem?_insertIdx_self, List.getElem?_insertIdx_self, List.length_map, length]
    split <;> rfl
  · have notBefore : ¬ place - 1 < slot := by omega
    have next : place - 1 + 1 = place := by omega
    rw [List.getElem?_insertIdx_of_gt behind, List.getElem?_insertIdx_of_gt behind, found,
      if_neg notBefore, next]
    rfl

theorem image_mem_children {child : Node}
    (isChild : child ∈ node.children) :
    (insertion path slot method).image child ∈
      ((insertion path slot method).image node).children := by
  have among := List.mem_map_of_mem (f := (insertion path slot method).image) isChild
  by_cases hits : (insertion path slot method).hits node = true
  · rw [children_image_of_hits hits]
    exact List.subset_insertIdx _ _ _ among
  · rwa [children_image hits]

theorem addsMethods_insertion (isMethod : method.kind = "method_definition") :
    (insertion path slot method).transfer.AddsMethods := by
  intro node
  rw [images_transfer, image_transfer]
  by_cases hits : (insertion path slot method).hits node = true
  · rw [children_image_of_hits hits]
    apply filter_insertIdx
    simp [Node.kind, isMethod]
  · rw [children_image hits]

theorem image_mem_nodes (inside : node ∈ tree.nodes) :
    (insertion path slot method).image node ∈
      (tree.revised (insertion path slot method)).nodes := by
  apply Tree.node_induction inside
  · exact Tree.root_mem_nodes _
  · intro parent _ parentInside child isChild
    exact Tree.child_mem_nodes parentInside (image_mem_children isChild)

end Revision

/-- **Adding a method never silences a report.** Where no two nodes have one span, before and
after a method is put among the members of a class, in any slot and with anything in it,
every pair that is reported before is reported afterwards. The path leads from the root to
the body of the class. -/
theorem mem_seen_insertion (source : Source) (conventions : Conventions) (file : String)
    {tree method : Tree} (path : List Nat) (slot : Nat)
    (isMethod : method.kind = "method_definition") (distinct : tree.SpansDistinct)
    (addedDistinct : (tree.revised (.insertion path slot method)).SpansDistinct) :
    ∀ pair ∈ (Evidence.ofTree source conventions file tree).log.seen,
      pair ∈ (Evidence.ofTree source conventions file
        (tree.revised (.insertion path slot method))).log.seen := by
  intro pair logged
  exact Transfer.mem_seen_ofTree (Revision.addsMethods_insertion isMethod)
    (Revision.image_root _ tree) source conventions file distinct addedDistinct
    (fun _ => Revision.image_mem_nodes) logged

/-- A method with a name and a call in it. -/
def addedMethod : Tree :=
  ⟨"method_definition", true, none, 48, 48, [
    ⟨"property_identifier", true, some "name", 48, 48, []⟩,
    ⟨"call_expression", true, none, 48, 48, [⟨"identifier", true, some "function", 48, 48, []⟩]⟩]⟩

theorem mem_seen_directTree_insertion :
    let grown := directTree.revised (.insertion [0, 1] 1 addedMethod)
    (addedMethod.kind = "method_definition" ∧ directTree.SpansDistinct ∧
      grown.SpansDistinct) ∧
    grown.nodes.length = directTree.nodes.length + 4 ∧
    (⟨36, 46, "member_expression"⟩, none) ∈
      (Evidence.ofTree directSource plainConventions "a.js" grown).log.seen := by
  intro grown
  have isMethod : addedMethod.kind = "method_definition" := rfl
  have grownDistinct : grown.SpansDistinct := by decide
  have logged := flagged_directTree.logged spansDistinct_directTree "a.js"
  refine ⟨⟨isMethod, spansDistinct_directTree, grownDistinct⟩, rfl, ?_⟩
  exact mem_seen_insertion directSource plainConventions "a.js" [0, 1] 1 isMethod
    spansDistinct_directTree grownDistinct _ logged

end StaleRead
