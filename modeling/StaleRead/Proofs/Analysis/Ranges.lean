import Mathlib.Data.List.Pairwise
import StaleRead.Proofs.Analysis.Role

/-! # Ranges and what lies below

A declarator accounts for a read that its value covers. The test compares ranges, and an empty
range at the edge of a node is covered by its neighbour too. A read of the state is never empty
(`Tree.Nested.nonempty_of_readsState`). So where ranges are nested as the nodes are, the value
covers just the reads that are in it, and a declarator never binds what is read in its pattern
or in its type (`Declarator.covers_value_iff`).
-/

namespace StaleRead

namespace Span

theorem covers_iff {outer inner : Span} :
    outer.covers inner = true ↔ outer.start ≤ inner.start ∧ inner.stop ≤ outer.stop := by
  rw [covers, Bool.and_eq_true, decide_eq_true_iff, decide_eq_true_iff]

/-- A byte lies in a range. -/
def HasByte (span : Span) (offset : Nat) : Prop :=
  span.start ≤ offset ∧ offset < span.stop

/-- No byte lies in both ranges. -/
def Apart (first second : Span) : Prop :=
  ∀ offset, first.HasByte offset → ¬ second.HasByte offset

theorem apart_iff {first second : Span} :
    first.Apart second ↔ min first.stop second.stop ≤ max first.start second.start := by
  constructor
  · intro apart
    by_contra overlap
    rw [Nat.not_le] at overlap
    exact apart (max first.start second.start) ⟨by omega, by omega⟩ ⟨by omega, by omega⟩
  · rintro bound offset ⟨_, _⟩ ⟨_, _⟩
    omega

instance (first second : Span) : Decidable (first.Apart second) :=
  decidable_of_iff _ apart_iff.symm

theorem Apart.symm {first second : Span} (apart : first.Apart second) : second.Apart first :=
  fun offset inSecond inFirst => apart offset inFirst inSecond

end Span

/-- Each child of a node lies in the range of the node, and no byte lies in two of its
children. -/
structure Tree.Nested (tree : Tree) : Prop where
  covered : ∀ parent ∈ tree.nodes, ∀ child ∈ parent.children,
    parent.span.covers child.span = true
  apart : ∀ parent ∈ tree.nodes,
    parent.children.Pairwise fun first second => first.span.Apart second.span

namespace Tree

variable {tree : Tree}

theorem nested_iff :
    tree.Nested ↔ ∀ parent ∈ tree.nodes,
      (∀ child ∈ parent.children, parent.span.covers child.span = true) ∧
        parent.children.Pairwise fun first second => first.span.Apart second.span :=
  ⟨fun nested parent inside => ⟨nested.covered parent inside, nested.apart parent inside⟩,
    fun each => ⟨fun parent inside => (each parent inside).1, fun parent inside =>
      (each parent inside).2⟩⟩

instance (tree : Tree) : Decidable tree.Nested :=
  decidable_of_iff _ nested_iff.symm

/-- The range of a node covers all that lies below the node. -/
theorem Nested.covers_of_within (nested : tree.Nested) {node outer : Node}
    (inside : node ∈ tree.nodes) (within : node.Within outer) :
    outer.span.covers node.span = true := by
  obtain ⟨subtree, above⟩ := node
  induction above generalizing subtree with
  | nil =>
      obtain rfl : _ = outer := within.resolve_right (List.not_mem_nil ·)
      exact Span.covers_iff.mpr ⟨Nat.le_refl _, Nat.le_refl _⟩
  | cons step above ih =>
      rcases (Node.within_iff_of_parent? rfl).mp within with rfl | below
      · exact Span.covers_iff.mpr ⟨Nat.le_refl _, Nat.le_refl _⟩
      · obtain ⟨parentInside, member⟩ := parent?_mem_nodes inside rfl
        have upper := Span.covers_iff.mp (ih step.parent parentInside below)
        have lower := Span.covers_iff.mp (nested.covered _ parentInside _ member)
        exact Span.covers_iff.mpr
          ⟨Nat.le_trans upper.1 lower.1, Nat.le_trans lower.2 upper.2⟩

/-- Of the children of a node, a range that is not empty tells the one that has it below. -/
theorem Nested.covers_iff_within (nested : tree.Nested) {parent child node : Node}
    (parentInside : parent ∈ tree.nodes) (member : child ∈ parent.children)
    (inside : node ∈ tree.nodes) (below : parent ∈ node.ancestors)
    (nonempty : node.span.start < node.span.stop) :
    child.span.covers node.span = true ↔ node.Within child := by
  refine ⟨fun covers => ?_, nested.covers_of_within inside⟩
  have notParent : node ≠ parent := by
    rintro rfl
    exact Nat.lt_irrefl _ (Node.depth_lt_of_mem_ancestors below)
  obtain ⟨other, otherMember, within⟩ :=
    ((within_iff_children inside).mp (Or.inr below)).resolve_left notParent
  by_contra outside
  have distinct : child ≠ other := by
    rintro rfl
    exact outside within
  have symmetric : Std.Symm fun first second : Node => first.span.Apart second.span :=
    ⟨fun _ _ => Span.Apart.symm⟩
  have apart : child.span.Apart other.span :=
    (nested.apart parent parentInside).forall member otherMember distinct
  -- The first byte of the node lies in both children.
  have inChild := Span.covers_iff.mp covers
  have inOther := Span.covers_iff.mp (nested.covers_of_within inside within)
  exact apart node.span.start ⟨inChild.1, by omega⟩ ⟨inOther.1, by omega⟩

end Tree

theorem Source.text_eq_empty {source : Source} {start stop : Nat} (empty : stop ≤ start) :
    source.text start stop = "" := by
  rw [text, slice, Nat.sub_eq_zero_of_le empty, List.take_zero]
  rfl

/-- A read of the state is not empty: it spells out the name of the property. -/
theorem Tree.Nested.nonempty_of_readsState {tree : Tree} (nested : tree.Nested) {source : Source}
    {read : Node} (inside : read ∈ tree.nodes) (reads : read.readsState source = true) :
    read.span.start < read.span.stop := by
  simp only [Node.readsState, Node.isMemberOfThis, Bool.and_eq_true, Option.any_eq_true,
    beq_iff_eq] at reads
  obtain ⟨⟨_, property, fills, _, name⟩, _⟩ := reads
  have covered := Span.covers_iff.mp
    (nested.covered read inside property (Node.mem_children_of_child? fills))
  by_contra empty
  have nothing : property.text source = "" := Source.text_eq_empty (by
    change property.span.stop ≤ property.span.start
    omega)
  rw [nothing] at name
  exact absurd name (by decide)

/-- A node is in a part of a declarator other than its value, as a default in its pattern is, or
its type. -/
def Declarator.Beside (declarator : Declarator) (node : Node) : Prop :=
  ∃ part ∈ declarator.node.children, declarator.value? ≠ some part ∧ node.Within part

namespace Declarator

variable {source : Source} {tree : Tree} {node read value : Node} {declarator : Declarator}

/-- What is in the pattern is not in the value. -/
theorem beside_of_within_pattern {pattern : Node} (isDeclarator : ofNode? node = some declarator)
    (hasPattern : declarator.pattern? = some pattern) (within : read.Within pattern) :
    declarator.Beside read := by
  obtain rfl := eq_of_ofNode? isDeclarator
  refine ⟨pattern, Node.mem_children_of_child? hasPattern, fun hasValue => ?_, within⟩
  have asPattern := Node.field?_of_child? hasPattern
  have asValue := Node.field?_of_child? hasValue
  exact absurd (asPattern.symm.trans asValue) (by decide)

/-- **The ranges tell what is in the value.** Where ranges are nested as the nodes are, the value of
a declarator around a read of the state covers the read exactly if the read is the value or lies
below it, and just then the declarator accounts for the read. It is passed over by a read in one
of its other parts, which is never bound to its identifiers. -/
theorem covers_value_iff (nested : tree.Nested) (inside : read ∈ tree.nodes)
    (reads : read.readsState source = true) (isDeclarator : ofNode? node = some declarator)
    (above : node ∈ read.ancestors) (hasValue : declarator.value? = some value) :
    (value.span.covers read.span = true ↔ read.Within value) ∧
      (ReadRole.at? source read node = some (.binding declarator) ↔ read.Within value) ∧
      (declarator.Beside read → ReadRole.at? source read node = none ∧
        ReadRole.of? source read ≠ some (.binding declarator)) := by
  have same := eq_of_ofNode? isDeclarator
  have member : value ∈ node.children := by
    rw [same] at hasValue
    exact Node.mem_children_of_child? hasValue
  have decides := nested.covers_iff_within (Tree.mem_nodes_of_mem_ancestors inside above) member
    inside above (nested.nonempty_of_readsState inside reads)
  have accounts : ReadRole.at? source read node =
      if value.span.covers read.span then some (.binding declarator) else none := by
    rw [ReadRole.at?_of_declarator isDeclarator, hasValue, Option.any_some]
  refine ⟨decides, ?_, ?_⟩
  · rw [accounts, Option.ite_none_right_eq_some, and_iff_left rfl, decides]
  -- Another part than the value has nothing below it in common with the value.
  rintro ⟨part, partMember, apart, within⟩
  rw [show declarator.node = node by rw [same]] at partMember
  have outside : ¬ read.Within value := fun below =>
    apart (hasValue.trans (congrArg some (below.eq_of_mem_children within member partMember)))
  have passed : ReadRole.at? source read node = none := by
    rw [accounts, if_neg (decides.not.mpr outside)]
  refine ⟨passed, fun found => ?_⟩
  obtain ⟨ancestor, _, found⟩ := List.exists_of_findSome?_eq_some found
  obtain rfl : node = ancestor :=
    congrArg Declarator.node (same.symm.trans (eq_of_ofNode? (ReadRole.declarator_of_at? found)))
  cases passed.symm.trans found

end Declarator

/-- A declarator with a read in a default of its pattern and one in its value. -/
def defaultSource : Source :=
  .ofText "const {a=this.state}=f(this.state)"

/-- The tree of the declarator, down to the nodes that matter. -/
def defaultTree : Tree :=
  ⟨"program", true, none, 0, 34, [
    ⟨"lexical_declaration", true, none, 0, 34, [
      ⟨"variable_declarator", true, none, 6, 34, [
        ⟨"object_pattern", true, some "name", 6, 20, [
          ⟨"object_assignment_pattern", true, none, 7, 19, [
            ⟨"shorthand_property_identifier_pattern", true, some "left", 7, 8, []⟩,
            ⟨"member_expression", true, some "right", 9, 19, [
              ⟨"this", true, some "object", 9, 13, []⟩,
              ⟨"property_identifier", true, some "property", 14, 19, []⟩]⟩]⟩]⟩,
        ⟨"call_expression", true, some "value", 21, 34, [
          ⟨"identifier", true, some "function", 21, 22, []⟩,
          ⟨"arguments", true, some "arguments", 22, 34, [
            ⟨"member_expression", true, none, 23, 33, [
              ⟨"this", true, some "object", 23, 27, []⟩,
              ⟨"property_identifier", true, some "property", 28, 33, []⟩]⟩]⟩]⟩]⟩]⟩]⟩

/-- The declarator accounts for the read in its value and is passed over by the one in its
pattern. -/
theorem at?_defaultTree :
    let nodes := defaultTree.nodes
    let declarator : Declarator := ⟨nodes[2], some nodes[3], some nodes[9]⟩
    defaultTree.Nested ∧ nodes[6].readsState defaultSource = true ∧
      nodes[12].readsState defaultSource = true ∧
      ReadRole.at? defaultSource nodes[6] nodes[2] = none ∧
      ReadRole.at? defaultSource nodes[12] nodes[2] = some (.binding declarator) := by
  intro nodes declarator
  have nested : defaultTree.Nested := by decide
  have isDeclarator : Declarator.ofNode? nodes[2] = some declarator := rfl
  have inDefault : nodes[6].readsState defaultSource = true := by decide
  have inValue : nodes[12].readsState defaultSource = true := by decide
  have beside : declarator.Beside nodes[6] :=
    Declarator.beside_of_within_pattern isDeclarator rfl (Or.inr (.tail _ (.head _)))
  have below : nodes[12].Within nodes[9] := Or.inr (.tail _ (.head _))
  refine ⟨nested, inDefault, inValue, ?_, ?_⟩
  · exact ((Declarator.covers_value_iff nested (List.getElem_mem _) inDefault isDeclarator
      (.tail _ (.tail _ (.head _))) rfl).2.2 beside).1
  · exact (Declarator.covers_value_iff nested (List.getElem_mem _) inValue isDeclarator
      (.tail _ (.tail _ (.head _))) rfl).2.1.mpr below

end StaleRead
