import Mathlib.Logic.Relation
import StaleRead.Proofs.Tree.Nodes
import StaleRead.Shape.Pattern

/-! # What patterns bind

From a node of a pattern, steps lead to the parts through which it binds (`Node.BindsThrough`).
The identifiers that a pattern binds are the leaves at the ends of such steps
(`Node.mem_bindings_iff_leadsTo`). So they are the pattern itself or lie below it, and are nodes of
the tree that the pattern is in.
-/

namespace StaleRead

namespace PatternForm

variable {kind : String}

theorem ofKind_eq_leaf_iff :
    ofKind kind = .leaf ↔
      kind = "identifier" ∨ kind = "shorthand_property_identifier_pattern" := by
  unfold ofKind
  split_ifs <;> grind

theorem ofKind_eq_each_iff :
    ofKind kind = .each ↔
      kind = "object_pattern" ∨ kind = "array_pattern" ∨ kind = "rest_pattern" := by
  unfold ofKind
  split_ifs <;> grind

theorem ofKind_eq_through_iff {field : String} :
    ofKind kind = .through field ↔
      kind = "pair_pattern" ∧ field = "value" ∨
      (kind = "object_assignment_pattern" ∨ kind = "assignment_pattern") ∧ field = "left" ∨
      (kind = "required_parameter" ∨ kind = "optional_parameter") ∧ field = "pattern" := by
  unfold ofKind
  split_ifs <;> grind

end PatternForm

namespace Node

/-- An identifier that is bound where it stands, alone or as a property of its name. -/
def IsBindingLeaf (node : Node) : Prop :=
  node.kind = "identifier" ∨ node.kind = "shorthand_property_identifier_pattern"

/-- The step from a node of a pattern to a part through which it binds. -/
inductive BindsThrough (outer : Node) : Node → Prop
  /-- Object, array and rest patterns bind through each of their named children. -/
  | named {part : Node}
      (kind : outer.kind = "object_pattern" ∨ outer.kind = "array_pattern" ∨
        outer.kind = "rest_pattern")
      (member : part ∈ outer.namedChildren) : BindsThrough outer part
  /-- A renamed property binds through its value. -/
  | value {part : Node} (kind : outer.kind = "pair_pattern")
      (fills : outer.child? "value" = some part) : BindsThrough outer part
  /-- What has a default binds through its left side. -/
  | left {part : Node}
      (kind : outer.kind = "object_assignment_pattern" ∨ outer.kind = "assignment_pattern")
      (fills : outer.child? "left" = some part) : BindsThrough outer part
  /-- A typed parameter binds through its pattern. -/
  | pattern {part : Node}
      (kind : outer.kind = "required_parameter" ∨ outer.kind = "optional_parameter")
      (fills : outer.child? "pattern" = some part) : BindsThrough outer part

/-- Steps of binding lead from the first node to the second. -/
def LeadsTo : Node → Node → Prop :=
  Relation.ReflTransGen BindsThrough

theorem bindsThrough_iff {outer part : Node} :
    outer.BindsThrough part ↔
      (∃ field, PatternForm.ofKind outer.kind = .through field ∧
        outer.child? field = some part) ∨
      PatternForm.ofKind outer.kind = .each ∧ part ∈ outer.namedChildren := by
  simp only [PatternForm.ofKind_eq_through_iff, PatternForm.ofKind_eq_each_iff]
  constructor
  · intro binds
    cases binds with
    | named kind member => exact Or.inr ⟨kind, member⟩
    | value kind fills => exact Or.inl ⟨_, Or.inl ⟨kind, rfl⟩, fills⟩
    | left kind fills => exact Or.inl ⟨_, Or.inr (Or.inl ⟨kind, rfl⟩), fills⟩
    | pattern kind fills => exact Or.inl ⟨_, Or.inr (Or.inr ⟨kind, rfl⟩), fills⟩
  · intro form
    rcases form with ⟨field, form, fills⟩ | ⟨kind, member⟩
    · rcases form with ⟨kind, rfl⟩ | ⟨kind, rfl⟩ | ⟨kind, rfl⟩
      · exact .value kind fills
      · exact .left kind fills
      · exact .pattern kind fills
    · exact .named kind member

theorem BindsThrough.mem_children {outer part : Node} (binds : outer.BindsThrough part) :
    part ∈ outer.children := by
  rcases bindsThrough_iff.mp binds with ⟨field, _, fills⟩ | ⟨_, member⟩
  · exact mem_children_of_child? fills
  · exact (mem_namedChildren.mp member).1

theorem BindsThrough.ofKind_ne_inert {outer part : Node} (binds : outer.BindsThrough part) :
    PatternForm.ofKind outer.kind ≠ .inert := by
  rcases bindsThrough_iff.mp binds with ⟨field, form, _⟩ | ⟨form, _⟩ <;> simp [form]

/-- A pattern binds itself, if it is a leaf, or else what its parts bind. -/
theorem mem_bindings_iff {pattern binding : Node} :
    binding ∈ pattern.bindings ↔
      pattern.IsBindingLeaf ∧ binding = pattern ∨
      ∃ part, pattern.BindsThrough part ∧ binding ∈ part.bindings := by
  rw [bindings_eq, IsBindingLeaf, ← PatternForm.ofKind_eq_leaf_iff]
  simp only [bindsThrough_iff]
  cases form : PatternForm.ofKind pattern.kind with
  | leaf => simp
  | through field => cases found : pattern.child? field <;> simp [found]
  | each => simp
  | inert => simp

/-- The bound identifiers are the leaves to which steps of binding lead. -/
theorem mem_bindings_iff_leadsTo {pattern binding : Node} :
    binding ∈ pattern.bindings ↔ binding.IsBindingLeaf ∧ pattern.LeadsTo binding := by
  constructor
  · intro binds
    induction pattern using children_induction with
    | step pattern ih =>
        rcases mem_bindings_iff.mp binds with ⟨leaf, rfl⟩ | ⟨part, step, below⟩
        · exact ⟨leaf, .refl⟩
        · obtain ⟨leaf, leads⟩ := ih part step.mem_children below
          exact ⟨leaf, .head step leads⟩
  · intro reached
    obtain ⟨leaf, leads⟩ := reached
    induction leads using Relation.ReflTransGen.head_induction_on with
    | refl => exact mem_bindings_iff.mpr (Or.inl ⟨leaf, rfl⟩)
    | head step _ ih => exact mem_bindings_iff.mpr (Or.inr ⟨_, step, ih⟩)

/-- What holds of a pattern and passes from its parts to their children holds of every
identifier that it binds. -/
theorem binding_induction {motive : Node → Prop} {pattern binding : Node}
    (binds : binding ∈ pattern.bindings) (whole : motive pattern)
    (part : ∀ outer child : Node, PatternForm.ofKind outer.kind ≠ .inert →
      child ∈ outer.children → motive outer → motive child) : motive binding := by
  rw [mem_bindings_iff_leadsTo] at binds
  obtain ⟨-, leads⟩ := binds
  induction leads with
  | refl => exact whole
  | tail _ step ih => exact part _ _ step.ofKind_ne_inert step.mem_children ih

theorem mem_nodes_of_mem_bindings {tree : Tree} {pattern binding : Node}
    (inside : pattern ∈ tree.nodes) (binds : binding ∈ pattern.bindings) :
    binding ∈ tree.nodes := by
  refine binding_induction binds inside ?_
  intro outer child _ member outerInside
  exact Tree.child_mem_nodes outerInside member

end Node

end StaleRead
