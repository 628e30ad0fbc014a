import StaleRead.Proofs.Analysis.Growth
import StaleRead.Proofs.Transfer.Scope

/-! # Signs in an edited tree

Where spans are distinct before and after an edit, the image of a node reads the state, calls
and is used in updates exactly as the node was, in the image of its component. If the edit
adds nothing but methods to the children of nodes, scopes are the same as well, and the image
of a node shows again what the node showed (`Transfer.shows_image`). So no report is lost
where every node has an image (`Transfer.mem_seen_ofTree`).
-/

namespace StaleRead

/-- The component that a sign is about, if it is about the methods of one. -/
def Sign.component? : Sign → Option Span
  | .methodRead fact => some fact.component
  | .methodCall call => some call.component
  | .helperUse use => some use.component
  | _ => none

namespace Transfer

variable {transfer : Transfer} {source : Source} {conventions : Conventions} {tree edited : Tree}
  {node : Node}

theorem span_map_component (transfer : Transfer) (component : Component) :
    (component.map transfer.image).span = component.span :=
  transfer.span_image component.node

theorem callsIn_image_iff (transfer : Transfer) {component : Component} {callee : String} :
    (transfer.image node).CallsIn source conventions component callee ↔
      ∃ before, node.CallsIn source conventions before callee ∧
        before.map transfer.image = component := by
  constructor
  · rintro ⟨kind, sits, invokes⟩
    rw [kind_image] at kind
    rw [around?_image, Option.map_eq_some_iff] at sits
    rw [invokedName?_image source kind] at invokes
    obtain ⟨before, sits, same⟩ := sits
    exact ⟨before, ⟨kind, sits, invokes⟩, same⟩
  · rintro ⟨before, calls, rfl⟩
    refine ⟨?_, ?_, ?_⟩
    · rw [kind_image, calls.kind]
    · rw [around?_image, calls.sits, Option.map_some]
    · rw [invokedName?_image source calls.kind, calls.invokes]

theorem takesIn_image (transfer : Transfer) {component : Component} {property : TakenProperty}
    (takes : node.TakesIn source conventions component property) :
    (transfer.image node).TakesIn source conventions (component.map transfer.image)
      (property.map transfer.image) := by
  obtain ⟨properties, taken, member⟩ := takes.takes
  refine ⟨?_, properties.map (TakenProperty.map transfer.image), ?_, List.mem_map_of_mem member⟩
  · rw [around?_image, takes.sits, Option.map_some]
  · rw [fromThis?_image, taken, Option.map_some]

theorem boundBy_image (transfer : Transfer) {binding : Node} {pattern? : Option Node}
    (bound : binding.BoundBy pattern?) :
    (transfer.image binding).BoundBy (pattern?.map transfer.image) := by
  obtain ⟨pattern, rfl, member⟩ := bound
  refine ⟨_, rfl, ?_⟩
  rw [bindings_image]
  exact List.mem_map_of_mem member

section Distinct

variable (distinct : tree.SpansDistinct) (editedDistinct : edited.SpansDistinct)
  (inside : node ∈ tree.nodes) (imageInside : transfer.image node ∈ edited.nodes)

include distinct editedDistinct inside imageInside

theorem readsIn_image_iff {component : Component} {role : ReadRole} :
    (transfer.image node).ReadsIn source conventions component role ↔
      ∃ before played, node.ReadsIn source conventions before played ∧
        before.map transfer.image = component ∧ played.map transfer.image = role := by
  constructor
  · rintro ⟨reads, sits, nearest⟩
    rw [readsState_image] at reads
    rw [around?_image, Option.map_eq_some_iff] at sits
    rw [← ReadRole.of?_eq_some_iff source editedDistinct imageInside, roleOf?_image,
      Option.map_eq_some_iff] at nearest
    obtain ⟨before, sits, sameComponent⟩ := sits
    obtain ⟨played, found, sameRole⟩ := nearest
    have nearest := (ReadRole.of?_eq_some_iff source distinct inside played).mp found
    exact ⟨before, played, ⟨reads, sits, nearest⟩, sameComponent, sameRole⟩
  · rintro ⟨before, played, reads, rfl, rfl⟩
    refine ⟨?_, ?_, ?_⟩
    · rw [readsState_image, reads.reads]
    · rw [around?_image, reads.sits, Option.map_some]
    · rw [← ReadRole.of?_eq_some_iff source editedDistinct imageInside, roleOf?_image,
        (ReadRole.of?_eq_some_iff source distinct inside played).mpr reads.nearest,
        Option.map_some]

theorem inUpdate_image_iff : (transfer.image node).InUpdate source ↔ node.InUpdate source := by
  rw [← Node.enclosingUpdate?_isSome_iff source editedDistinct imageInside,
    enclosingUpdate?_image, Option.isSome_map,
    Node.enclosingUpdate?_isSome_iff source distinct inside]

/-- What a node shows of its component is shown again by its image. -/
theorem shows_image_of_component {sign : Sign} {component : Span}
    (about : sign.component? = some component) (shown : node.Shows source conventions tree sign) :
    (transfer.image node).Shows source conventions edited (sign.map transfer.image) := by
  cases shown with
  | methodRead reads =>
      have shows : (transfer.image node).Shows source conventions edited _ :=
        .methodRead ((readsIn_image_iff distinct editedDistinct inside imageInside).mpr
          ⟨_, _, reads, rfl, rfl⟩)
      rwa [span_image, span_map_component] at shows
  | @methodCall component callee caller definition calls within named =>
      have around : (transfer.image node).enclosingFunction? source =
          some (definition.map transfer.image) := by
        rw [enclosingFunction?_image, within, Option.map_some]
      have shows : (transfer.image node).Shows source conventions edited _ :=
        .methodCall (transfer.callsIn_image_iff.mpr ⟨_, calls, rfl⟩) around named
      rwa [span_map_component] at shows
  | helperUse calls updates =>
      have shows : (transfer.image node).Shows source conventions edited _ :=
        .helperUse (transfer.callsIn_image_iff.mpr ⟨_, calls, rfl⟩)
          ((inUpdate_image_iff distinct editedDistinct inside imageInside).mpr updates)
      rwa [span_map_component] at shows
  | _ => cases about

/-- What an image shows of its component was shown by the node. -/
theorem exists_shows_of_image {sign : Sign} {component : Span}
    (about : sign.component? = some component)
    (shown : (transfer.image node).Shows source conventions edited sign) :
    ∃ before, node.Shows source conventions tree before ∧ before.map transfer.image = sign := by
  cases shown with
  | methodRead reads =>
      obtain ⟨around, played, readBefore, rfl, same⟩ :=
        (readsIn_image_iff distinct editedDistinct inside imageInside).mp reads
      cases played with
      | function definition =>
          cases same
          refine ⟨_, .methodRead readBefore, ?_⟩
          rw [span_image, span_map_component]
          rfl
      | update _ => cases same
      | binding _ => cases same
  | methodCall calls within named =>
      obtain ⟨around, called, rfl⟩ := transfer.callsIn_image_iff.mp calls
      rw [enclosingFunction?_image, Option.map_eq_some_iff] at within
      obtain ⟨definition, within, rfl⟩ := within
      refine ⟨_, .methodCall called within named, ?_⟩
      rw [span_map_component]
      rfl
  | helperUse calls updates =>
      obtain ⟨around, called, rfl⟩ := transfer.callsIn_image_iff.mp calls
      have updated := (inUpdate_image_iff distinct editedDistinct inside imageInside).mp updates
      refine ⟨_, .helperUse called updated, ?_⟩
      rw [span_map_component]
      rfl
  | _ => cases about

theorem usedInUpdate_image (uses : node.UsedInUpdate source) :
    (transfer.image node).UsedInUpdate source := by
  have operationInside := Node.outermostOperation_mem_nodes inside
  have imageOperationInside := Node.outermostOperation_mem_nodes imageInside
  rw [outermostOperation_image] at imageOperationInside
  refine ⟨?_, ?_, ?_⟩
  · rw [kind_image]
    exact uses.kind
  · rw [outermostOperation_image, standsForObject_image, uses.object]
  · rw [outermostOperation_image]
    exact (inUpdate_image_iff distinct editedDistinct operationInside imageOperationInside).mpr
      uses.updates

end Distinct

section Adds

variable (adds : transfer.AddsMethods)
  (root : transfer.image (Node.root tree) = Node.root edited)

include adds root

theorem homeScope_image (source : Source) (node : Node) :
    (transfer.image node).homeScope source edited =
      transfer.image (node.homeScope source tree) := by
  rw [Node.homeScope, declaringScope?_image adds, Node.homeScope, ← root]
  cases node.declaringScope? source <;> rfl

theorem bindingRead_image (source : Source) (binding : Node) (read : Span) :
    (transfer.image binding).bindingRead source edited read =
      binding.bindingRead source tree read := by
  rw [Node.bindingRead, homeScope_image adds root, span_image, text_image, Node.bindingRead]

/-- The image of a node shows what the node showed. -/
theorem shows_image (distinct : tree.SpansDistinct) (editedDistinct : edited.SpansDistinct)
    (inside : node ∈ tree.nodes) (imageInside : transfer.image node ∈ edited.nodes) {sign : Sign}
    (shown : node.Shows source conventions tree sign) :
    (transfer.image node).Shows source conventions edited (sign.map transfer.image) := by
  have readsIn {component : Component} {role : ReadRole}
      (reads : node.ReadsIn source conventions component role) :=
    (readsIn_image_iff distinct editedDistinct inside imageInside).mpr ⟨_, _, reads, rfl, rfl⟩
  have ofComponent {component : Span} (about : sign.component? = some component) :=
    shows_image_of_component distinct editedDistinct inside imageInside about shown
  cases shown with
  | finding reads =>
      have shows : (transfer.image node).Shows source conventions edited _ :=
        .finding (readsIn reads)
      rwa [span_image] at shows
  | methodRead => exact ofComponent rfl
  | value reads bound =>
      have shows : (transfer.image node).Shows source conventions edited _ :=
        .value (readsIn reads) (transfer.boundBy_image bound)
      rwa [span_image, bindingRead_image adds root] at shows
  | taken takes bound =>
      have shows : (transfer.image node).Shows source conventions edited _ :=
        .taken (transfer.takesIn_image takes) (transfer.boundBy_image bound)
      rwa [bindingRead_image adds root, TakenProperty.map, span_image] at shows
  | methodCall => exact ofComponent rfl
  | helperUse => exact ofComponent rfl
  | bindingUse uses =>
      have shows : (transfer.image node).Shows source conventions edited _ :=
        .bindingUse (usedInUpdate_image distinct editedDistinct inside imageInside uses)
      rwa [homeScope_image adds root, span_image, text_image] at shows

/-- Where every node has an image, no report is lost. -/
theorem mem_seen_ofTree (source : Source) (conventions : Conventions) (file : String)
    (distinct : tree.SpansDistinct) (editedDistinct : edited.SpansDistinct)
    (images : ∀ node ∈ tree.nodes, transfer.image node ∈ edited.nodes)
    {pair : Span × Option Span}
    (logged : pair ∈ (Evidence.ofTree source conventions file tree).log.seen) :
    pair ∈ (Evidence.ofTree source conventions file edited).log.seen := by
  rw [mem_seen_ofTree_iff_verdict source _ file distinct] at logged
  rw [mem_seen_ofTree_iff_verdict source _ file editedDistinct]
  refine logged.map transfer.span_image ?_
  rintro sign ⟨node, inside, shown⟩
  exact ⟨transfer.image node, images node inside,
    shows_image adds root distinct editedDistinct inside (images node inside) shown⟩

end Adds

end Transfer

end StaleRead
