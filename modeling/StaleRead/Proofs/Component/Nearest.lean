import StaleRead.Proofs.Component
import StaleRead.Proofs.Memo

/-! # The nearest component, asked for in any order

Which component a node is in is settled by its nearest ancestor that decides: a class decides
either way, for itself if it extends a configured base and for no component otherwise, and an
object literal decides for itself if it is handed to a configured factory
(`Component.Settles`). A memo of such answers gives each node the answer of the first node with
its span that was asked about, so where spans are distinct every node gets its own
(`Component.settles_iff_remembered`).
-/

namespace StaleRead.Component

variable {source : Source} {conventions : Conventions}

/-- The class extends a configured base, written with or without the namespace. -/
def ExtendsBase (source : Source) (conventions : Conventions) (definition : Node) : Prop :=
  ∃ superclass, superclass? definition = some superclass ∧ ∃ base ∈ conventions.bases,
    baseName source superclass = base ∨
      baseName source superclass = conventions.pragma ++ "." ++ base

/-- The object literal stands in the argument list of a call of a configured factory, and the
first argument of the call has its span. -/
structure HandedToFactory (source : Source) (conventions : Conventions) (object call : Node) :
    Prop where
  listed : ∃ list, object.parent? = some list ∧ list.kind = "arguments" ∧
    list.parent? = some call
  kind : call.kind = "call_expression"
  factory : ∃ callee, call.child? "function" = some callee ∧
    (callee.text source = conventions.factory ∨
      callee.text source = conventions.pragma ++ ".createClass")
  first : ∃ argument, call.arguments.head? = some argument ∧ argument.span = object.span

/-- What an ancestor decides about the component that a node is in. -/
inductive Decides (source : Source) (conventions : Conventions) : Node → Option Component → Prop
  /-- A class that extends a base is the component. -/
  | component {definition : Node} (isClass : definition.kind ∈ classKinds)
      (named : definition.isNamed = true) (base : ExtendsBase source conventions definition) :
      Decides source conventions definition
        (some ⟨definition, (definition.child? "name").map (·.text source), .classBody⟩)
  /-- Any other class hides the components around it. -/
  | plain {definition : Node} (isClass : definition.kind ∈ classKinds)
      (named : definition.isNamed = true) (plain : ¬ ExtendsBase source conventions definition) :
      Decides source conventions definition none
  /-- An object literal that is handed to a factory is the component. -/
  | object {object call : Node} (kind : object.kind = "object")
      (handed : HandedToFactory source conventions object call) :
      Decides source conventions object
        (some ⟨object, boundName? source call, .objectLiteral⟩)

/-- The nearest ancestor that decides gives the answer, and without one there is none. -/
inductive Settles (source : Source) (conventions : Conventions) (node : Node) :
    Option Component → Prop
  | nearest {nearer farther : List Node} {ancestor : Node} {component? : Option Component}
      (split : node.ancestors = nearer ++ ancestor :: farther)
      (decides : Decides source conventions ancestor component?)
      (silent : ∀ other ∈ nearer, ∀ answer, ¬ Decides source conventions other answer) :
      Settles source conventions node component?
  | outside
      (silent : ∀ other ∈ node.ancestors, ∀ answer, ¬ Decides source conventions other answer) :
      Settles source conventions node none

theorem ofClass?_of_extendsBase {definition : Node}
    (base : ExtendsBase source conventions definition) :
    ofClass? source conventions definition =
      some ⟨definition, (definition.child? "name").map (·.text source), .classBody⟩ := by
  obtain ⟨superclass, extended, isBase⟩ := base
  have spelled : baseName source superclass ∈ conventions.baseSpellings := by
    simpa [Conventions.baseSpellings] using isBase
  simp [ofClass?, extended, spelled]

theorem ofClass?_of_not_extendsBase {definition : Node}
    (plain : ¬ ExtendsBase source conventions definition) :
    ofClass? source conventions definition = none := by
  cases extended : superclass? definition with
  | none => simp [ofClass?, extended]
  | some superclass =>
      have other : baseName source superclass ∉ conventions.baseSpellings := by
        intro spelled
        exact plain ⟨superclass, extended, by simpa [Conventions.baseSpellings] using spelled⟩
      simp [ofClass?, extended, other]

theorem ofObject?_eq_some_iff {object : Node} {component : Component} :
    ofObject? source conventions object = some component ↔
      ∃ call, HandedToFactory source conventions object call ∧
        component = ⟨object, boundName? source call, .objectLiteral⟩ := by
  simp only [ofObject?, Option.bind_eq_bind, Option.bind_eq_some_iff,
    Option.ite_none_right_eq_some, Option.some.injEq]
  constructor
  · rintro ⟨list, listed, call, called, callee, invoked, first, leads,
      ⟨listKind, callKind, factory, same⟩, rfl⟩
    refine ⟨call, ⟨⟨list, listed, listKind, called⟩, callKind, ⟨callee, invoked, ?_⟩,
      ⟨first, leads, same⟩⟩, rfl⟩
    simpa [Conventions.factorySpellings] using factory
  · rintro ⟨call, ⟨⟨list, listed, listKind, called⟩, callKind, ⟨callee, invoked, factory⟩,
      first, leads, same⟩, rfl⟩
    refine ⟨list, listed, call, called, callee, invoked, first, leads,
      ⟨listKind, callKind, ?_, same⟩, rfl⟩
    simpa [Conventions.factorySpellings] using factory

theorem decide?_eq_some_iff {ancestor : Node} {component? : Option Component} :
    decide? source conventions ancestor = some component? ↔
      Decides source conventions ancestor component? := by
  constructor
  · intro decides
    rw [decide?] at decides
    split_ifs at decides with isClass isObject
    · obtain rfl := Option.some.inj decides
      by_cases base : ExtendsBase source conventions ancestor
      · rw [ofClass?_of_extendsBase base]
        exact .component isClass.1 isClass.2 base
      · rw [ofClass?_of_not_extendsBase base]
        exact .plain isClass.1 isClass.2 base
    · obtain ⟨component, defined, rfl⟩ := Option.map_eq_some_iff.mp decides
      obtain ⟨call, handed, rfl⟩ := ofObject?_eq_some_iff.mp defined
      exact .object isObject handed
  · intro decides
    cases decides with
    | component isClass named base =>
        rw [decide?, if_pos ⟨isClass, named⟩, ofClass?_of_extendsBase base]
    | plain isClass named plain =>
        rw [decide?, if_pos ⟨isClass, named⟩, ofClass?_of_not_extendsBase plain]
    | object kind handed =>
        have noClass : "object" ∉ classKinds := by decide
        have defined := ofObject?_eq_some_iff.mpr ⟨_, handed, rfl⟩
        rw [decide?, kind, if_neg (noClass ·.1), if_pos rfl, defined, Option.map_some]

theorem decide?_eq_none_iff {ancestor : Node} :
    decide? source conventions ancestor = none ↔
      ∀ answer, ¬ Decides source conventions ancestor answer := by
  simp only [Option.eq_none_iff_forall_ne_some, ne_eq, decide?_eq_some_iff]

theorem settles_iff {node : Node} {component? : Option Component} :
    Settles source conventions node component? ↔
      component? = around? source conventions node := by
  rw [around?, Node.nearest?]
  constructor
  · intro settles
    cases settles with
    | nearest split decides silent =>
        have found : node.ancestors.findSome? (decide? source conventions) = some component? :=
          List.findSome?_eq_some_iff.mpr ⟨_, _, _, split, decide?_eq_some_iff.mpr decides,
            fun other member => decide?_eq_none_iff.mpr (silent other member)⟩
        rw [found, Option.join_some]
    | outside silent =>
        have missing : node.ancestors.findSome? (decide? source conventions) = none :=
          List.findSome?_eq_none_iff.mpr fun other member =>
            decide?_eq_none_iff.mpr (silent other member)
        rw [missing, Option.join_none]
  · rintro rfl
    cases found : node.ancestors.findSome? (decide? source conventions) with
    | none =>
        rw [List.findSome?_eq_none_iff] at found
        exact .outside fun other member => decide?_eq_none_iff.mp (found other member)
    | some component? =>
        obtain ⟨nearer, ancestor, farther, split, decides, silent⟩ :=
          List.findSome?_eq_some_iff.mp found
        exact .nearest split (decide?_eq_some_iff.mp decides)
          fun other member => decide?_eq_none_iff.mp (silent other member)

/-- A class that is no component hides those around it. -/
theorem node_mem_of_plain {node definition : Node} {nearer farther : List Node}
    {component : Component} (split : node.ancestors = nearer ++ definition :: farther)
    (plain : Decides source conventions definition none)
    (sits : around? source conventions node = some component) : component.node ∈ nearer := by
  have decides := decide?_eq_some_iff.mpr plain
  rw [around?, Node.nearest?, split, List.findSome?_append, List.findSome?_cons, decides] at sits
  cases found : nearer.findSome? (decide? source conventions) with
  | none => simp [found] at sits
  | some component? =>
      rw [found, Option.some_or, Option.join_some] at sits
      obtain ⟨ancestor, member, own⟩ := List.exists_of_findSome?_eq_some found
      rw [sits] at own
      rwa [node_of_decide? own]

/-- The component that a node is said to be in after questions about some nodes. -/
def remembered? (source : Source) (conventions : Conventions) (asked : List Node) (node : Node) :
    Option Component :=
  ((Memo.after (around? source conventions) asked).ask (around? source conventions) node).1

/-- **Remembered components are the fresh ones.** After any questions, a node is said to be in
the component that the nearest deciding ancestor settles for the first node with its span that
was asked about. So where spans are distinct, every node gets its own answer, in any order of
questions, and no class that is not a component lets through a component around it. -/
theorem settles_iff_remembered (source : Source) (conventions : Conventions) (asked : List Node) :
    (∀ node, ∃ first, (asked ++ [node]).find? (·.span = node.span) = some first ∧
      ∀ answer, Settles source conventions first answer ↔
        answer = remembered? source conventions asked node) ∧
    ∀ tree : Tree, tree.SpansDistinct → asked ⊆ tree.nodes → ∀ node ∈ tree.nodes,
      (∀ answer, Settles source conventions node answer ↔
        answer = remembered? source conventions asked node) ∧
      ∀ nearer definition farther, node.ancestors = nearer ++ definition :: farther →
        Decides source conventions definition none →
          ∀ component, remembered? source conventions asked node = some component →
            component.node ∈ nearer := by
  constructor
  · intro node
    obtain ⟨first, found, answers⟩ :=
      Memo.ask_after_eq_first (around? source conventions) asked node
    refine ⟨first, found, fun answer => ?_⟩
    rw [settles_iff, remembered?, answers]
  · intro tree distinct askedInside node inside
    have own : remembered? source conventions asked node = around? source conventions node :=
      Memo.ask_after _ distinct askedInside inside
    rw [own]
    exact ⟨fun answer => settles_iff, fun nearer definition farther split plain component =>
      node_mem_of_plain split plain⟩

/-- A component with a plain class in one of its fields. -/
def nestedSource : Source :=
  .ofText "class A extends C\x7bp=class\x7bq=1\x7d\x7d"

/-- The tree of the component, down to the nodes that matter. -/
def nestedTree : Tree :=
  ⟨"program", true, none, 0, 31, [
    ⟨"class_declaration", true, none, 0, 31, [
      ⟨"class_heritage", true, none, 8, 17, [⟨"identifier", true, none, 16, 17, []⟩]⟩,
      ⟨"class_body", true, some "body", 17, 31, [
        ⟨"field_definition", true, none, 18, 30, [
          ⟨"property_identifier", true, some "property", 18, 19, []⟩,
          ⟨"class", true, some "value", 20, 30, [
            ⟨"class_body", true, some "body", 25, 30, [
              ⟨"field_definition", true, none, 26, 29, [
                ⟨"property_identifier", true, some "property", 26, 27, []⟩,
                ⟨"number", true, some "value", 28, 29, []⟩]⟩]⟩]⟩]⟩]⟩]⟩]⟩

/-- The plain class hides the component from its own field. The outer field gets the answer of
a node outside of the tree that has its span, if that one is asked about first. -/
theorem remembered_nestedTree :
    let conventions : Conventions := ⟨"React", "createReactClass", ["C"]⟩
    let asked : List Node := [nestedTree.nodes[6], nestedTree.nodes[10]]
    let stray : Node := .root ⟨"property_identifier", true, none, 18, 19, []⟩
    (nestedTree.SpansDistinct ∧ asked ⊆ nestedTree.nodes ∧
      Decides nestedSource conventions nestedTree.nodes[7] none) ∧
    remembered? nestedSource conventions asked nestedTree.nodes[11] = none ∧
    (around? nestedSource conventions nestedTree.nodes[6]).isSome = true ∧
    remembered? nestedSource conventions [stray] nestedTree.nodes[6] = none := by
  intro conventions asked stray
  have distinct : nestedTree.SpansDistinct := by decide
  have inside : asked ⊆ nestedTree.nodes := by
    simp only [asked, List.cons_subset]
    exact ⟨List.getElem_mem _, List.getElem_mem _, List.nil_subset _⟩
  have plain : Decides nestedSource conventions nestedTree.nodes[7] none :=
    .plain (by decide) rfl fun ⟨_, extended, _⟩ => nomatch extended
  refine ⟨⟨distinct, inside, plain⟩, ?_, by decide, ?_⟩
  · have answers := ((settles_iff_remembered nestedSource conventions asked).2 nestedTree distinct
      inside nestedTree.nodes[11] (List.getElem_mem _)).1
    have split : nestedTree.nodes[11].ancestors =
        [nestedTree.nodes[9], nestedTree.nodes[8]] ++
          nestedTree.nodes[7] :: nestedTree.nodes[7].ancestors := rfl
    refine ((answers none).mp (.nearest split plain ?_)).symm
    simp only [List.forall_mem_cons]
    exact ⟨decide?_eq_none_iff.mp rfl, decide?_eq_none_iff.mp rfl, List.forall_mem_nil _⟩
  · obtain ⟨first, found, answers⟩ :=
      (settles_iff_remembered nestedSource conventions [stray]).1 nestedTree.nodes[6]
    obtain rfl : stray = first := Option.some.inj found
    exact ((answers none).mp (.outside (List.forall_mem_nil _))).symm

end StaleRead.Component
