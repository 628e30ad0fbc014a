import Mathlib.Data.List.Flatten
import StaleRead.Proofs.Shape.Pattern
import StaleRead.Proofs.Tree.Traversal

/-! # The leaves of a pattern

A pattern binds its leaves each once, in the order of the walk. Steps of binding are the only way
down to them, so nothing is bound in a part to which no step leads. Keys of renamed properties,
default values and type annotations are such parts (`Node.SetsAside`), however deep they are in the
pattern (`Node.bindings_exact`).
-/

namespace StaleRead.Node

/-- The children of a node of a pattern that are written beside what the node binds. -/
inductive SetsAside (outer : Node) : Node → Prop
  /-- The key of a renamed property. -/
  | key {part : Node} (kind : outer.kind = "pair_pattern") (field : part.field? = some "key") :
      SetsAside outer part
  /-- The default value of a property or of an element. -/
  | default {part : Node}
      (kind : outer.kind = "object_assignment_pattern" ∨ outer.kind = "assignment_pattern")
      (field : part.field? = some "right") : SetsAside outer part
  /-- The type annotation of a parameter, or its default value. -/
  | annotation {part : Node}
      (kind : outer.kind = "required_parameter" ∨ outer.kind = "optional_parameter")
      (field : part.field? = some "type" ∨ part.field? = some "value") : SetsAside outer part

theorem SetsAside.ofKind_eq_through {outer part : Node} (aside : outer.SetsAside part) :
    ∃ field, PatternForm.ofKind outer.kind = .through field ∧ part.field? ≠ some field := by
  simp only [PatternForm.ofKind_eq_through_iff]
  cases aside with
  | key kind field => exact ⟨_, Or.inl ⟨kind, rfl⟩, by simp [field]⟩
  | default kind field => exact ⟨_, Or.inr (Or.inl ⟨kind, rfl⟩), by simp [field]⟩
  | annotation kind field =>
      refine ⟨_, Or.inr (Or.inr ⟨kind, rfl⟩), ?_⟩
      rcases field with field | field <;> simp [field]

/-- No step of binding leads to what is set aside. -/
theorem SetsAside.not_bindsThrough {outer part : Node} (aside : outer.SetsAside part) :
    ¬ outer.BindsThrough part := by
  intro binds
  obtain ⟨field, form, other⟩ := aside.ofKind_eq_through
  rcases bindsThrough_iff.mp binds with ⟨wanted, through, fills⟩ | ⟨each, _⟩
  · obtain rfl := PatternForm.through.inj (form.symm.trans through)
    exact other (field?_of_child? fills)
  · exact PatternForm.noConfusion (form.symm.trans each)

/-- Steps of binding are the only way down from a pattern to where they lead. -/
theorem LeadsTo.bindsThrough {pattern node outer part : Node} (leads : pattern.LeadsTo node)
    (within : outer.Within pattern) (member : part ∈ outer.children) (below : node.Within part) :
    outer.BindsThrough part := by
  have sits := parent?_of_mem_children member
  induction leads with
  | refl =>
      -- The part lies below the pattern and would lie above it.
      have deeper := depth_of_parent? sits
      have upper := below.depth_le
      have lower := within.depth_le
      omega
  | tail _ step ih =>
      have stepSits := parent?_of_mem_children step.mem_children
      rcases (within_iff_of_parent? stepSits).mp below with rfl | above
      · obtain rfl := Option.some.inj (stepSits.symm.trans sits)
        exact step
      · exact ih above

/-- A pattern binds in the order of its walk. -/
theorem bindings_sublist_walk (pattern : Node) : pattern.bindings.Sublist pattern.walk := by
  induction pattern using children_induction with
  | step pattern ih =>
      rw [bindings_eq, walk_eq]
      cases form : PatternForm.ofKind pattern.kind with
      | leaf => exact (List.nil_sublist _).cons_cons pattern
      | through field =>
          cases found : pattern.child? field with
          | none => simp only [found, List.nil_sublist]
          | some part =>
              simp only [found]
              have member := mem_children_of_child? found
              have whole : part.walk.Sublist (pattern.children.flatMap walk) :=
                List.sublist_flatten_of_mem (List.mem_map_of_mem member)
              exact ((ih part member).trans whole).cons pattern
      | each =>
          have named : (pattern.namedChildren.flatMap bindings).Sublist
              (pattern.children.flatMap bindings) := List.filter_sublist.flatMap bindings
          exact (named.trans (List.Sublist.flatMap_right _ ih)).cons pattern
      | inert => exact List.nil_sublist _

/-- Some nodes are the identifiers that a pattern binds. -/
structure BindsExactly (pattern : Node) (bound : List Node) : Prop where
  leaves : ∀ node, node ∈ bound ↔ node.IsBindingLeaf ∧ pattern.LeadsTo node
  /-- From left to right, parents first. -/
  ordered : bound.Sublist pattern.walk
  once : bound.Nodup
  /-- Nothing is bound in a part to which no step of binding leads. -/
  closed : ∀ outer part : Node, outer.Within pattern → part ∈ outer.children →
    ¬ outer.BindsThrough part → ∀ node ∈ bound, ¬ node.Within part
  /-- Nothing is bound in a key, in a default value or in a type annotation. -/
  apart : ∀ outer part : Node, outer.Within pattern → part ∈ outer.children →
    outer.SetsAside part → ∀ node ∈ bound, ¬ node.Within part

/-- **A pattern binds its leaves.** The identifiers that a pattern binds are those to which steps of
binding lead, each once and from left to right. None of them lies in the key of a renamed property,
in a default value or in a type annotation. -/
theorem bindings_exact (pattern : Node) : pattern.BindsExactly pattern.bindings := by
  have closed : ∀ outer part : Node, outer.Within pattern → part ∈ outer.children →
      ¬ outer.BindsThrough part → ∀ node ∈ pattern.bindings, ¬ node.Within part := by
    intro outer part within member noStep node bound below
    have leads := (mem_bindings_iff_leadsTo.mp bound).2
    exact noStep (leads.bindsThrough within member below)
  have ordered := bindings_sublist_walk pattern
  refine ⟨fun _ => mem_bindings_iff_leadsTo, ordered, (nodup_walk pattern).sublist ordered,
    closed, ?_⟩
  intro outer part within member aside
  exact closed outer part within member aside.not_bindsThrough

/-- The tree of `{a: [b = c, ...d], e = f}`, without its punctuation. -/
def nestedPattern : Tree :=
  ⟨"object_pattern", true, none, 0, 25, [
    ⟨"pair_pattern", true, none, 1, 17, [
      ⟨"property_identifier", true, some "key", 1, 2, []⟩,
      ⟨"array_pattern", true, some "value", 4, 17, [
        ⟨"assignment_pattern", true, none, 5, 10, [
          ⟨"identifier", true, some "left", 5, 6, []⟩,
          ⟨"identifier", true, some "right", 9, 10, []⟩]⟩,
        ⟨"rest_pattern", true, none, 12, 16, [
          ⟨"identifier", true, none, 15, 16, []⟩]⟩]⟩]⟩,
    ⟨"object_assignment_pattern", true, none, 19, 24, [
      ⟨"shorthand_property_identifier_pattern", true, some "left", 19, 20, []⟩,
      ⟨"identifier", true, some "right", 23, 24, []⟩]⟩]⟩

example : (Node.root nestedPattern).bindings.map (·.tree.start) = [5, 15, 19] := rfl

end StaleRead.Node
