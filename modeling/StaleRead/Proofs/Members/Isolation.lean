import StaleRead.Proofs.Analysis.Account
import StaleRead.Proofs.Members.Revision
import StaleRead.Proofs.Transfer.Sign

/-! # Components do not interfere

Methods, calls and helpers of all components of a file are recorded in the same tables, but
every entry is filed under the component that it is about. The component around a node is
decided by the nearest class, so whatever stands in a class is about a component in that
class and not about one outside. If the members of a class are replaced, all signs of a
component outside are shown again and no others are (`Revision.Apart.shows_iff`). So calls of
that component's helpers are reported as before, also where the two components have methods
of one name or the class stands in the component (`reportsThrough_replacement_iff`).
-/

namespace StaleRead

theorem Component.decide?_ne_none_of_isClass {source : Source} {conventions : Conventions}
    {node : Node} (isClass : node.kind ∈ classKinds) (isNamed : node.isNamed = true) :
    decide? source conventions node ≠ none := by
  rw [decide?, if_pos ⟨isClass, isNamed⟩]
  exact Option.some_ne_none _

/-- The component around a node in a class does not lie outside of the class. -/
theorem Component.within_of_around? {source : Source} {conventions : Conventions}
    {node host : Node} {component : Component}
    (sits : around? source conventions node = some component) (around : host ∈ node.ancestors)
    (isClass : host.kind ∈ classKinds) (isNamed : host.isNamed = true) :
    component.node.Within host := by
  rw [around?, Option.join_eq_some_iff, Node.nearest?, List.findSome?_eq_some_iff] at sits
  obtain ⟨nearer, ancestor, farther, split, decides, undecided⟩ := sits
  rw [node_of_decide? decides]
  have behind := Node.ancestors_of_ancestors_eq_append split
  rw [split, List.mem_append, List.mem_cons] at around
  rcases around with near | here | far
  · exact (decide?_ne_none_of_isClass isClass isNamed (undecided host near)).elim
  · exact Or.inl here.symm
  · rw [← behind] at far
    exact Or.inr far

namespace Evidence

/-- A pair is reported on account of the reads that are recorded for the methods of a
component: a remembered call in the component is reported against the reads of its callee,
and the pair is one of those. -/
def ReportsThrough (evidence : Evidence) (component : Span) (pair : Span × Option Span) : Prop :=
  pair ∈ evidence.log.seen ∧
    ∃ use ∈ evidence.helperUses, use.component = component ∧ pair ∈ evidence.flow.callPairs use

variable {source : Source} {conventions : Conventions} {file : String} {tree : Tree}

theorem mem_helperUses_ofTree_iff (distinct : tree.SpansDistinct) (use : HelperUse) :
    use ∈ (ofTree source conventions file tree).helperUses ↔
      tree.Shows source conventions (.helperUse use) := by
  rw [← holds_collected source conventions file distinct, ofTree, ofNodes, helperUses_judge]
  rfl

theorem mem_callPairs_ofTree_iff (distinct : tree.SpansDistinct) (use : HelperUse)
    (pair : Span × Option Span) :
    pair ∈ (ofTree source conventions file tree).flow.callPairs use ↔
      ∃ reader read,
        Relation.ReflTransGen (Sign.Calls (tree.Shows source conventions) use.component)
          use.callee reader ∧
        tree.Shows source conventions (.methodRead ⟨use.component, some reader, read⟩) ∧
          (read, some use.node.span) = pair := by
  have coherent := coherent_collected source conventions file distinct
  rw [← holds_collected source conventions file distinct, flow_ofTree,
    coherent.flow.close.mem_callPairs_iff]
  simp only [coherent.flow.mem_close_iff]
  constructor
  · rintro ⟨read, ⟨reader, chain, recorded⟩, same⟩
    exact ⟨reader, read, chain, recorded, same⟩
  · rintro ⟨reader, read, chain, recorded, same⟩
    exact ⟨read, ⟨reader, chain, recorded⟩, same⟩

/-- What is reported on account of a component rests on signs that are about it. -/
theorem reportsThrough_ofTree_iff (distinct : tree.SpansDistinct) (component : Span)
    (pair : Span × Option Span) :
    (ofTree source conventions file tree).ReportsThrough component pair ↔
      ∃ callee site reader read,
        tree.Shows source conventions (.helperUse ⟨component, callee, site⟩) ∧
        Relation.ReflTransGen (Sign.Calls (tree.Shows source conventions) component)
          callee reader ∧
        tree.Shows source conventions (.methodRead ⟨component, some reader, read⟩) ∧
          (read, some site.span) = pair := by
  simp only [ReportsThrough, mem_helperUses_ofTree_iff distinct, mem_callPairs_ofTree_iff distinct]
  constructor
  · rintro ⟨_, ⟨_, callee, site⟩, waits, rfl, reader, read, chain, reads, same⟩
    exact ⟨callee, site, reader, read, waits, chain, reads, same⟩
  · rintro ⟨callee, site, reader, read, waits, chain, reads, rfl⟩
    refine ⟨?_, ⟨component, callee, site⟩, waits, rfl, reader, read, chain, reads, rfl⟩
    rw [mem_seen_ofTree_iff_verdict source conventions file distinct]
    exact .helper waits chain reads

end Evidence

theorem Node.Shows.exists_around? {source : Source} {conventions : Conventions} {tree : Tree}
    {node : Node} {sign : Sign} {component : Span} (about : sign.component? = some component)
    (shown : node.Shows source conventions tree sign) :
    ∃ around, Component.around? source conventions node = some around ∧
      around.span = component := by
  cases shown with
  | methodRead reads => exact ⟨_, reads.sits, Option.some.inj about⟩
  | methodCall calls => exact ⟨_, calls.sits, Option.some.inj about⟩
  | helperUse calls => exact ⟨_, calls.sits, Option.some.inj about⟩
  | _ => cases about

theorem Sign.component?_map (image : Node → Node) (sign : Sign) :
    (sign.map image).component? = sign.component? := by
  cases sign <;> rfl

namespace Revision

/-- A revision of the members of a class, and a component that does not lie in the class. -/
structure Apart (revision : Revision) (tree : Tree) (host : Node) (other : Component) :
    Prop where
  isClass : host.kind ∈ Component.classKinds
  isNamed : host.isNamed = true
  sits : ∀ body ∈ tree.nodes, revision.hits body = true → body.parent? = some host
  inside : other.node ∈ tree.nodes
  apart : ¬ other.node.Within host

namespace Apart

variable {revision : Revision} {source : Source} {conventions : Conventions} {tree : Tree}
  {host node : Node} {other : Component}

theorem host_mem_ancestors (apart : revision.Apart tree host other) {body : Node}
    (inside : node ∈ tree.nodes) (hit : revision.hits body = true) (above : body ∈ node.ancestors) :
    host ∈ node.ancestors := by
  have bodyInside := Tree.mem_nodes_of_mem_ancestors inside above
  have below : node.Within body := Or.inr above
  exact below.mem_ancestors (apart.sits body bodyInside hit)

theorem spares_other (apart : revision.Apart tree host other) : revision.Spares other.node :=
  fun _ above hit => apart.apart (Or.inr (apart.host_mem_ancestors apart.inside hit above))

/-- The nodes in the component lie outside of the class body that is revised. -/
theorem spares_of_around? (apart : revision.Apart tree host other)
    (distinct : tree.SpansDistinct) (inside : node ∈ tree.nodes) {component : Component}
    (sits : Component.around? source conventions node = some component)
    (same : component.span = other.span) : revision.Spares node := by
  intro body above hit
  have isOther : component.node = other.node :=
    distinct.eq_of_span_eq (Component.node_mem_nodes inside sits) apart.inside same
  have hostAbove := apart.host_mem_ancestors inside hit above
  apply apart.apart
  rw [← isOther]
  exact Component.within_of_around? sits hostAbove apart.isClass apart.isNamed

/-- The image of the component lies outside of the image of the class. -/
theorem not_within_image (apart : revision.Apart tree host other)
    (distinct : tree.SpansDistinct) (hostInside : host ∈ tree.nodes) :
    ¬ (revision.image other.node).Within (revision.image host) := by
  have known (outer : Node) (inside : outer ∈ tree.nodes)
      (same : revision.image outer = revision.image host) : outer = host := by
    apply distinct.eq_of_span_eq inside hostInside
    rw [← revision.transfer.span_image, ← revision.transfer.span_image host]
    exact congrArg Node.span same
  rintro (same | above)
  · exact apart.apart (Or.inl (known _ apart.inside same))
  · rw [← image_transfer, Transfer.ancestors_image] at above
    obtain ⟨outer, member, same⟩ := List.mem_map.mp above
    have outerInside := Tree.mem_nodes_of_mem_ancestors apart.inside member
    obtain rfl := known outer outerInside same
    exact apart.apart (Or.inr member)

/-- The nodes of the revised tree in the component are images of nodes of the tree. -/
theorem exists_image_of_around? (apart : revision.Apart tree host other)
    (distinct : tree.SpansDistinct) (revisedDistinct : (tree.revised revision).SpansDistinct)
    {revised : Node} (inside : revised ∈ (tree.revised revision).nodes) {component : Component}
    (sits : Component.around? source conventions revised = some component)
    (same : component.span = other.span) :
    ∃ before ∈ tree.nodes, revision.image before = revised := by
  rcases cases_of_mem_nodes inside with ⟨body, bodyInside, hit, above⟩ | ⟨before, inside, _, image⟩
  · have bodySits := apart.sits body bodyInside hit
    have hostInside := (Tree.parent?_mem_nodes bodyInside bodySits).1
    have imageSits : (revision.image body).parent? = some (revision.image host) := by
      rw [← image_transfer, Transfer.parent?_image, bodySits, Option.map_some]
    have isOther : component.node = revision.image other.node := by
      apply revisedDistinct.eq_of_span_eq (Component.node_mem_nodes inside sits)
        (apart.spares_other.image_mem_nodes apart.inside)
      rw [← image_transfer, Transfer.span_image]
      exact same
    have below : revised.Within (revision.image body) := Or.inr above
    have within : component.node.Within (revision.image host) := by
      apply Component.within_of_around? sits (below.mem_ancestors imageSits)
      · rw [← image_transfer, Transfer.kind_image]
        exact apart.isClass
      · rw [← image_transfer, Transfer.isNamed_image]
        exact apart.isNamed
    rw [isOther] at within
    exact (apart.not_within_image distinct hostInside within).elim
  · exact ⟨before, inside, image⟩

section Signs

variable (apart : revision.Apart tree host other) (distinct : tree.SpansDistinct)
  (revisedDistinct : (tree.revised revision).SpansDistinct)

include apart distinct revisedDistinct

/-- The revised tree shows of the component what the tree shows of it. -/
theorem shows_iff {sign : Sign} (about : sign.component? = some other.span) :
    (tree.revised revision).Shows source conventions sign ↔
      ∃ before, tree.Shows source conventions before ∧ before.map revision.image = sign := by
  constructor
  · rintro ⟨revised, revisedInside, shown⟩
    obtain ⟨component, sits, same⟩ := shown.exists_around? about
    obtain ⟨node, inside, rfl⟩ :=
      apart.exists_image_of_around? distinct revisedDistinct revisedInside sits same
    rw [← image_transfer] at shown revisedInside
    obtain ⟨before, shown, image⟩ := Transfer.exists_shows_of_image distinct revisedDistinct
      inside revisedInside about shown
    exact ⟨before, ⟨node, inside, shown⟩, image⟩
  · rintro ⟨before, ⟨node, inside, shown⟩, rfl⟩
    rw [Sign.component?_map] at about
    obtain ⟨component, sits, same⟩ := shown.exists_around? about
    have spared := apart.spares_of_around? distinct inside sits same
    have imageInside := spared.image_mem_nodes inside
    rw [← image_transfer] at imageInside ⊢
    exact ⟨revision.transfer.image node, imageInside,
      Transfer.shows_image_of_component distinct revisedDistinct inside imageInside about shown⟩

theorem shows_methodRead_iff (method? : Option String) (read : Span) :
    (tree.revised revision).Shows source conventions (.methodRead ⟨other.span, method?, read⟩) ↔
      tree.Shows source conventions (.methodRead ⟨other.span, method?, read⟩) := by
  rw [apart.shows_iff distinct revisedDistinct rfl]
  constructor
  · rintro ⟨before, shown, image⟩
    cases before <;> cases image
    exact shown
  · exact fun shown => ⟨_, shown, rfl⟩

theorem calls_shows_eq :
    Sign.Calls ((tree.revised revision).Shows source conventions) other.span =
      Sign.Calls (tree.Shows source conventions) other.span := by
  funext caller callee
  rw [Sign.Calls, apart.shows_iff distinct revisedDistinct rfl, eq_iff_iff]
  constructor
  · rintro ⟨before, shown, image⟩
    cases before <;> cases image
    exact shown
  · exact fun shown => ⟨_, shown, rfl⟩

theorem exists_shows_helperUse_iff (source : Source) (conventions : Conventions)
    (callee : String) (site : Span) :
    (∃ node : Node, (tree.revised revision).Shows source conventions
        (.helperUse ⟨other.span, callee, node⟩) ∧ node.span = site) ↔
      ∃ node : Node, tree.Shows source conventions (.helperUse ⟨other.span, callee, node⟩) ∧
        node.span = site := by
  constructor
  · rintro ⟨node, shown, rfl⟩
    obtain ⟨before, held, image⟩ := (apart.shows_iff distinct revisedDistinct rfl).mp shown
    cases before with
    | helperUse use =>
        obtain ⟨component, callee, site⟩ := use
        obtain ⟨rfl, rfl, rfl⟩ := HelperUse.mk.inj (Sign.helperUse.inj image)
        exact ⟨site, held, (revision.transfer.span_image site).symm⟩
    | _ => cases image
  · rintro ⟨node, shown, rfl⟩
    refine ⟨revision.image node, ?_, revision.transfer.span_image node⟩
    exact (apart.shows_iff distinct revisedDistinct rfl).mpr ⟨_, shown, rfl⟩

theorem reportsThrough_iff (file : String) (pair : Span × Option Span) :
    (Evidence.ofTree source conventions file (tree.revised revision)).ReportsThrough
        other.span pair ↔
      (Evidence.ofTree source conventions file tree).ReportsThrough other.span pair := by
  have uses := apart.exists_shows_helperUse_iff distinct revisedDistinct source conventions
  rw [Evidence.reportsThrough_ofTree_iff revisedDistinct,
    Evidence.reportsThrough_ofTree_iff distinct]
  simp only [apart.calls_shows_eq distinct revisedDistinct,
    apart.shows_methodRead_iff distinct revisedDistinct]
  constructor
  · rintro ⟨callee, site, reader, read, waits, chain, reads, rfl⟩
    obtain ⟨before, waits, same⟩ := (uses callee site.span).mp ⟨site, waits, rfl⟩
    exact ⟨callee, before, reader, read, waits, chain, reads, by rw [same]⟩
  · rintro ⟨callee, site, reader, read, waits, chain, reads, rfl⟩
    obtain ⟨after, waits, same⟩ := (uses callee site.span).mpr ⟨site, waits, rfl⟩
    exact ⟨callee, after, reader, read, waits, chain, reads, by rw [same]⟩

end Signs

end Apart

/-- Other members for the class body `body` leave alone what lies outside of its class. -/
theorem apart_replacement {tree : Tree} {host body : Node} {other : Component}
    (isClass : host.kind ∈ Component.classKinds) (isNamed : host.isNamed = true)
    (inside : body ∈ tree.nodes) (sits : body.parent? = some host) (members : List Tree)
    (otherInside : other.node ∈ tree.nodes) (apart : ¬ other.node.Within host) :
    (replacement body.path members).Apart tree host other where
  isClass := isClass
  isNamed := isNamed
  sits hit hitInside hits := by
    rw [Tree.eq_of_path_eq hitInside inside (hits_iff.mp hits).1, sits]
  inside := otherInside
  apart := apart

end Revision

/-- **Helper reports of different components do not interfere.** Where no two nodes have one
span, before and after the members of a class are replaced by any others, the pairs that are
reported on account of the methods of a component that does not lie in the class are the
same. -/
theorem reportsThrough_replacement_iff (source : Source) (conventions : Conventions)
    (file : String) {tree : Tree} {host body : Node}
    (isClass : host.kind ∈ Component.classKinds) (isNamed : host.isNamed = true)
    (inside : body ∈ tree.nodes) (sits : body.parent? = some host) (members : List Tree)
    {other : Component} (otherInside : other.node ∈ tree.nodes)
    (apart : ¬ other.node.Within host) (distinct : tree.SpansDistinct)
    (replacedDistinct : (tree.revised (.replacement body.path members)).SpansDistinct)
    (pair : Span × Option Span) :
    (Evidence.ofTree source conventions file
        (tree.revised (.replacement body.path members))).ReportsThrough other.span pair ↔
      (Evidence.ofTree source conventions file tree).ReportsThrough other.span pair :=
  (Revision.apart_replacement isClass isNamed inside sits members otherInside
    apart).reportsThrough_iff distinct replacedDistinct file pair

/-- Two components with a method of one name, which reads the state in each of them. -/
def twinSource : Source :=
  .ofText
    "class A extends C{m(){this.setState(this.h())}h(){return this.state}}class B extends C{h(){return this.state}}"

/-- The tree of the two components, down to the nodes that matter. -/
def twinTree : Tree :=
  { helperTree with
    stop := 110
    children := helperTree.children ++ [
      ⟨"class_declaration", true, none, 69, 110, [
        ⟨"class_heritage", true, none, 77, 86, [⟨"identifier", true, none, 85, 86, []⟩]⟩,
        ⟨"class_body", true, some "body", 86, 110, [
          ⟨"method_definition", true, none, 87, 109, [
            ⟨"property_identifier", true, some "name", 87, 88, []⟩,
            ⟨"member_expression", true, none, 98, 108, [
              ⟨"this", true, some "object", 98, 102, []⟩,
              ⟨"property_identifier", true, some "property", 103, 108, []⟩]⟩]⟩]⟩]⟩] }

set_option maxRecDepth 1024 in
theorem reportsThrough_twinTree :
    let other : Component := ⟨twinTree.nodes[1], none, .classBody⟩
    let replaced := twinTree.revised (.replacement twinTree.nodes[24].path [])
    (twinTree.nodes[21].kind ∈ Component.classKinds ∧ twinTree.nodes[21].isNamed = true ∧
      twinTree.nodes[24] ∈ twinTree.nodes ∧
      twinTree.nodes[24].parent? = some twinTree.nodes[21] ∧ other.node ∈ twinTree.nodes ∧
      ¬ other.node.Within twinTree.nodes[21] ∧ twinTree.SpansDistinct ∧
      replaced.SpansDistinct) ∧
    (Evidence.ofTree twinSource plainConventions "a.js" replaced).ReportsThrough other.span
      (⟨57, 67, "member_expression"⟩, some ⟨36, 44, "call_expression"⟩) := by
  intro other replaced
  have isClass : twinTree.nodes[21].kind ∈ Component.classKinds := by decide
  have isNamed : twinTree.nodes[21].isNamed = true := by decide
  have distinct : twinTree.SpansDistinct := by decide
  have replacedDistinct : replaced.SpansDistinct := by decide
  have apart : ¬ other.node.Within twinTree.nodes[21] := by
    rintro (same | above)
    · have spans := congrArg Node.span same
      exact absurd spans (by decide)
    · have deeper : Node.depth twinTree.nodes[21] < other.node.depth :=
        Node.depth_lt_of_mem_ancestors above
      exact absurd deeper (by decide)
  have reads : twinTree.nodes[18].ReadsIn twinSource plainConventions other
      (.function ⟨twinTree.nodes[16], some "h"⟩) :=
    ⟨by decide, rfl, (ReadRole.of?_eq_some_iff twinSource distinct (List.getElem_mem _) _).mp rfl⟩
  have calls : twinTree.nodes[12].CallsIn twinSource plainConventions other "h" :=
    ⟨by decide, rfl, by decide⟩
  have updates : twinTree.nodes[12].InUpdate twinSource :=
    (Node.enclosingUpdate?_isSome_iff twinSource distinct (List.getElem_mem _)).mp (by decide)
  have reported : (Evidence.ofTree twinSource plainConventions "a.js" twinTree).ReportsThrough
      other.span (⟨57, 67, "member_expression"⟩, some ⟨36, 44, "call_expression"⟩) :=
    (Evidence.reportsThrough_ofTree_iff distinct _ _).mpr ⟨"h", twinTree.nodes[12], "h", _,
      Tree.shows_helperUse_iff.mpr ⟨_, List.getElem_mem _, other, "h", calls, updates, rfl⟩, .refl,
      Tree.shows_methodRead_iff.mpr ⟨_, List.getElem_mem _, other, _, reads, rfl⟩, rfl⟩
  exact ⟨⟨isClass, isNamed, List.getElem_mem _, rfl, List.getElem_mem _, apart, distinct,
      replacedDistinct⟩,
    (reportsThrough_replacement_iff twinSource plainConventions "a.js" isClass isNamed
      (List.getElem_mem _) rfl [] (List.getElem_mem _) apart distinct replacedDistinct _).mpr
        reported⟩

end StaleRead
