import StaleRead.Proofs.Analysis.Flagged

/-! # More signs, more verdicts

A verdict rests on signs that are shown and on none that are missing. So what is reported
stays reported if all signs are shown again, also at other nodes with the same spans
(`Verdict.map`). With more bases, each class that was a component is the same component,
and objects and the nearest class around a node decide as before. So every node keeps its
component, every sign is shown again and no report is lost (`mem_seen_of_widens`).
-/

namespace StaleRead

/-- A sign with the image of the node that it remembers. -/
def Sign.map (image : Node → Node) : Sign → Sign
  | .finding read site? => .finding read site?
  | .methodRead fact => .methodRead fact
  | .bindingRead fact => .bindingRead fact
  | .methodCall call => .methodCall call
  | .helperUse use => .helperUse { use with node := image use.node }
  | .bindingUse use => .bindingUse { use with node := image use.node }

@[simp] theorem Sign.map_id (sign : Sign) : sign.map id = sign := by
  cases sign <;> rfl

/-- Verdicts on some signs stand as well on others that hold their images, where images
keep the spans of nodes. -/
theorem Verdict.map {first second : Sign → Prop} {image : Node → Node}
    (spans : ∀ node, (image node).span = node.span)
    (shown : ∀ sign, first sign → second (sign.map image)) {pair : Span × Option Span}
    (verdict : Verdict first pair) : Verdict second pair := by
  cases verdict with
  | direct found => exact .direct (shown _ found)
  | helper waits chain reads =>
      have calls : ∀ component, Sign.Calls first component ≤ Sign.Calls second component :=
        fun _ _ _ called => shown _ called
      rw [← spans]
      exact .helper (shown _ waits) (Relation.ReflTransGen.mono (calls _) _ _ chain) (shown _ reads)
  | identifier waits held =>
      rw [← spans]
      exact .identifier (shown _ waits) (shown _ held)

/-- The larger conventions have all bases of the smaller ones and agree with them otherwise. -/
structure Conventions.Widens (larger smaller : Conventions) : Prop where
  pragma : larger.pragma = smaller.pragma
  factory : larger.factory = smaller.factory
  bases : smaller.bases ⊆ larger.bases

variable {source : Source} {larger smaller : Conventions}

namespace Conventions.Widens

theorem baseSpellings_subset (widens : larger.Widens smaller) :
    smaller.baseSpellings ⊆ larger.baseSpellings := by
  intro spelling member
  obtain ⟨base, known, spelled⟩ := List.mem_flatMap.mp member
  rw [← widens.pragma] at spelled
  exact List.mem_flatMap.mpr ⟨base, widens.bases known, spelled⟩

theorem factorySpellings_eq (widens : larger.Widens smaller) :
    larger.factorySpellings = smaller.factorySpellings := by
  rw [factorySpellings, widens.factory, widens.pragma, factorySpellings]

end Conventions.Widens

namespace Component

theorem ofClass?_of_widens (widens : larger.Widens smaller) {definition : Node}
    {component : Component} (defines : ofClass? source smaller definition = some component) :
    ofClass? source larger definition = some component := by
  simp only [ofClass?, Option.bind_eq_bind, Option.bind_eq_some_iff,
    Option.ite_none_right_eq_some] at defines ⊢
  obtain ⟨superclass, extended, isBase, same⟩ := defines
  exact ⟨superclass, extended, widens.baseSpellings_subset isBase, same⟩

theorem ofObject?_eq_of_widens (widens : larger.Widens smaller) (object : Node) :
    ofObject? source larger object = ofObject? source smaller object := by
  simp only [ofObject?, widens.factorySpellings_eq]

theorem decide?_of_widens (widens : larger.Widens smaller) {ancestor : Node}
    {component : Component} (decides : decide? source smaller ancestor = some (some component)) :
    decide? source larger ancestor = some (some component) := by
  rw [decide?] at decides ⊢
  rw [ofObject?_eq_of_widens widens]
  split_ifs at decides ⊢ with isClass isObject
  · rw [ofClass?_of_widens widens (Option.some.inj decides)]
  · exact decides

/-- More bases do not make anything decide that did not decide before. -/
theorem decide?_eq_none_of_widens (widens : larger.Widens smaller) {ancestor : Node}
    (undecided : decide? source smaller ancestor = none) :
    decide? source larger ancestor = none := by
  rw [decide?] at undecided ⊢
  rw [ofObject?_eq_of_widens widens]
  split_ifs at undecided ⊢ with isClass isObject
  · exact undecided
  · rfl

theorem around?_of_widens (widens : larger.Widens smaller) {node : Node}
    {component : Component} (sits : around? source smaller node = some component) :
    around? source larger node = some component := by
  rw [around?, Option.join_eq_some_iff, Node.nearest?, List.findSome?_eq_some_iff] at sits ⊢
  obtain ⟨nearer, ancestor, farther, split, decides, undecided⟩ := sits
  exact ⟨nearer, ancestor, farther, split, decide?_of_widens widens decides,
    fun other member => decide?_eq_none_of_widens widens (undecided other member)⟩

end Component

namespace Node

variable {node : Node} {component : Component}

theorem ReadsIn.of_widens (widens : larger.Widens smaller) {role : ReadRole}
    (reads : node.ReadsIn source smaller component role) :
    node.ReadsIn source larger component role :=
  ⟨reads.reads, Component.around?_of_widens widens reads.sits, reads.nearest⟩

theorem CallsIn.of_widens (widens : larger.Widens smaller) {callee : String}
    (calls : node.CallsIn source smaller component callee) :
    node.CallsIn source larger component callee :=
  ⟨calls.kind, Component.around?_of_widens widens calls.sits, calls.invokes⟩

theorem TakesIn.of_widens (widens : larger.Widens smaller) {property : TakenProperty}
    (takes : node.TakesIn source smaller component property) :
    node.TakesIn source larger component property :=
  ⟨Component.around?_of_widens widens takes.sits, takes.takes⟩

/-- A node shows again what it showed with fewer bases. -/
theorem Shows.of_widens (widens : larger.Widens smaller) {tree : Tree} {sign : Sign}
    (shown : node.Shows source smaller tree sign) : node.Shows source larger tree sign := by
  cases shown with
  | finding reads => exact .finding (reads.of_widens widens)
  | methodRead reads => exact .methodRead (reads.of_widens widens)
  | value reads bound => exact .value (reads.of_widens widens) bound
  | taken takes bound => exact .taken (takes.of_widens widens) bound
  | methodCall calls within named => exact .methodCall (calls.of_widens widens) within named
  | helperUse calls updates => exact .helperUse (calls.of_widens widens) updates
  | bindingUse uses => exact .bindingUse uses

end Node

/-- What is logged in the end is what there is a verdict on by the signs of the tree. -/
theorem mem_seen_ofTree_iff_verdict (source : Source) (conventions : Conventions) (file : String)
    {tree : Tree} (distinct : tree.SpansDistinct) (pair : Span × Option Span) :
    pair ∈ (Evidence.ofTree source conventions file tree).log.seen ↔
      Verdict (tree.Shows source conventions) pair := by
  rw [Evidence.ofTree, stackWalk_eq_nodes]
  exact Evidence.mem_seen_ofNodes_iff source conventions file distinct (List.Subset.refl _) pair

/-- **More bases never lose a report.** Where no two nodes of a tree have one span, every
node that has a component has the same component with more bases, whatever was asked
before, and every pair that is reported is reported with more bases. -/
theorem mem_seen_of_widens (source : Source) (file : String) (widens : larger.Widens smaller)
    {tree : Tree} (distinct : tree.SpansDistinct) :
    (∀ asked otherAsked, asked ⊆ tree.nodes → otherAsked ⊆ tree.nodes →
      ∀ node ∈ tree.nodes, ∀ component,
        ((Memo.after (Component.around? source smaller) asked).ask
            (Component.around? source smaller) node).1 = some component →
          ((Memo.after (Component.around? source larger) otherAsked).ask
            (Component.around? source larger) node).1 = some component) ∧
    ∀ pair ∈ (Evidence.ofTree source smaller file tree).log.seen,
      pair ∈ (Evidence.ofTree source larger file tree).log.seen := by
  constructor
  · intro asked otherAsked askedInside otherInside node inside component sits
    rw [Memo.ask_after _ distinct askedInside inside] at sits
    rw [Memo.ask_after _ distinct otherInside inside]
    exact Component.around?_of_widens widens sits
  · intro pair logged
    rw [mem_seen_ofTree_iff_verdict source _ file distinct] at logged ⊢
    have spans : ∀ node : Node, (id node).span = node.span := fun _ => rfl
    refine logged.map spans ?_
    rintro sign ⟨node, inside, shown⟩
    rw [Sign.map_id]
    exact ⟨node, inside, shown.of_widens widens⟩

/-- A component with a read of the state in a state update. -/
def directSource : Source :=
  .ofText "class A extends C{m(){this.setState(this.state)}}"

/-- The tree of the component, down to the nodes that matter. -/
def directTree : Tree :=
  ⟨"program", true, none, 0, 49, [
    ⟨"class_declaration", true, none, 0, 49, [
      ⟨"class_heritage", true, none, 8, 17, [⟨"identifier", true, none, 16, 17, []⟩]⟩,
      ⟨"class_body", true, some "body", 17, 49, [
        ⟨"method_definition", true, none, 18, 48, [
          ⟨"property_identifier", true, some "name", 18, 19, []⟩,
          ⟨"call_expression", true, none, 22, 47, [
            ⟨"member_expression", true, some "function", 22, 35, [
              ⟨"this", true, some "object", 22, 26, []⟩,
              ⟨"property_identifier", true, some "property", 27, 35, []⟩]⟩,
            ⟨"arguments", true, some "arguments", 35, 47, [
              ⟨"member_expression", true, none, 36, 46, [
                ⟨"this", true, some "object", 36, 40, []⟩,
                ⟨"property_identifier", true, some "property", 41, 46, []⟩]⟩]⟩]⟩]⟩]⟩]⟩]⟩

theorem spansDistinct_directTree : directTree.SpansDistinct := by decide

theorem flagged_directTree :
    Flagged directSource plainConventions directTree directTree.nodes[12] none := by
  have inside : directTree.nodes[12] ∈ directTree.nodes := List.getElem_mem _
  have reads : directTree.nodes[12].ReadsIn directSource plainConventions
      ⟨directTree.nodes[1], none, .classBody⟩
        (.update ⟨directTree.nodes[7], some directTree.nodes[11], some directTree.nodes[12]⟩) :=
    ⟨by decide, rfl, (ReadRole.of?_eq_some_iff directSource spansDistinct_directTree
      inside _).mp rfl⟩
  exact .direct inside reads

theorem mem_seen_directTree_of_widens :
    (⟨"React", "createReactClass", ["B", "C"]⟩ : Conventions).Widens plainConventions ∧
      directTree.SpansDistinct ∧
      (⟨36, 46, "member_expression"⟩, none) ∈ (Evidence.ofTree directSource
        ⟨"React", "createReactClass", ["B", "C"]⟩ "a.js" directTree).log.seen := by
  have widens : (⟨"React", "createReactClass", ["B", "C"]⟩ : Conventions).Widens
      plainConventions :=
    ⟨rfl, rfl, List.subset_cons_self _ _⟩
  have kept := (mem_seen_of_widens directSource "a.js" widens spansDistinct_directTree).2
  exact ⟨widens, spansDistinct_directTree,
    kept _ (flagged_directTree.logged spansDistinct_directTree "a.js")⟩

end StaleRead
