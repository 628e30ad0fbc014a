import Mathlib.Data.List.Perm.Basic
import Mathlib.Data.Set.List
import StaleRead.Proofs.Analysis.Inert
import StaleRead.Proofs.Finding.Place

/-! # Where findings are made

A finding is made at a node that reads the state or at a key under which a declarator takes it
from the instance. Every step of the analysis keeps this of all that it records
(`Evidence.Sourced`), also where several nodes have one span. So the lines, columns and texts of
the findings in a file are those of such nodes, and the findings are listed as their nodes
follow one another in the source (`lint_madeAt`).
-/

namespace StaleRead

/-- A node of a tree shows the state: it reads the state, or it is the key under which a
declarator takes the state from the instance. -/
def Node.ShowsState (source : Source) (tree : Tree) (node : Node) : Prop :=
  node ∈ tree.nodes ∧
    (node.readsState source = true ∨
      ∃ declarator ∈ tree.nodes, ∃ properties,
        TakenProperty.fromThis? source declarator = some properties ∧
          ∃ taken ∈ properties, taken.key = node)

namespace Evidence

/-- Coherent evidence all of whose reads are made at nodes of the tree that show the state. -/
structure Sourced (source : Source) (conventions : Conventions) (file : String) (tree : Tree)
    (evidence : Evidence) : Prop where
  coherent : evidence.Coherent source conventions file tree
  shown : ∀ span, evidence.Marks span →
    ∃ node : Node, node.ShowsState source tree ∧ node.span = span

variable {source : Source} {conventions : Conventions} {file : String} {tree : Tree}
  {before after evidence : Evidence}

theorem sourced_initial (source : Source) (conventions : Conventions) (file : String)
    (tree : Tree) : (initial file tree).Sourced source conventions file tree := by
  refine ⟨coherent_initial source conventions file tree, fun span marks => ?_⟩
  obtain ⟨sign, held, _⟩ := marks_iff.mp marks
  exact (not_holds_initial file tree sign held).elim

theorem Sourced.of_touches (sourced : before.Sourced source conventions file tree)
    (touches : ∀ span, Touches source conventions file tree span before False after) :
    after.Sourced source conventions file tree := by
  -- That the evidence is coherent does not depend on the span.
  refine ⟨(touches tree.span).coherent, fun span marks => ?_⟩
  exact sourced.shown span (((touches span).marks.mp marks).resolve_right id)

/-- Signs may be gained of a read at a node that shows the state. -/
theorem Sourced.of_gains (sourced : before.Sourced source conventions file tree) {read : Node}
    (shows : read.ShowsState source tree) {gained : Sign → Prop}
    (gains : Gains source conventions file tree before gained after)
    (marking : ∀ sign span, gained sign → sign.Marks span → span = read.span) :
    after.Sourced source conventions file tree := by
  refine ⟨gains.coherent, fun span marks => ?_⟩
  obtain ⟨sign, held, here⟩ := marks_iff.mp marks
  rcases (gains.holds sign).mp held with earlier | now
  · exact sourced.shown span (marks_iff.mpr ⟨sign, earlier, here⟩)
  · exact ⟨read, shows, (marking sign span now here).symm⟩

theorem Sourced.bindPattern (sourced : evidence.Sourced source conventions file tree)
    {read : Node} (shows : read.ShowsState source tree) {pattern? : Option Node}
    (inside : ∀ pattern, pattern? = some pattern → pattern ∈ tree.nodes) :
    (evidence.bindPattern source read.span pattern?).Sourced source conventions file tree := by
  cases pattern? with
  | none => exact sourced
  | some pattern =>
      refine List.foldlRecOn pattern.bindings _ sourced fun _ sourced binding member => ?_
      have binds := Node.mem_nodes_of_mem_bindings (inside pattern rfl) member
      refine sourced.of_gains shows (sourced.coherent.bindIdentifier_gains read.span binds) ?_
      rintro _ _ rfl rfl
      rfl

theorem Sourced.noteRead (sourced : evidence.Sourced source conventions file tree)
    {node : Node} (inside : node ∈ tree.nodes) :
    (evidence.noteRead source conventions node).Sourced source conventions file tree := by
  rw [Evidence.noteRead]
  split
  case isFalse => exact sourced
  case isTrue reads =>
    have shows : node.ShowsState source tree := ⟨inside, Or.inl reads⟩
    have kept := sourced.of_touches fun span =>
      sourced.coherent.component?_touches inside span
    generalize evidence.component? source conventions node = answer at kept ⊢
    obtain ⟨component?, next⟩ := answer
    cases component? with
    | none => exact kept
    | some component =>
        cases found : ReadRole.of? source node with
        | none => exact kept
        | some role =>
            cases role with
            | update call =>
                refine kept.of_gains shows (kept.coherent.flag node.span none) ?_
                rintro _ _ rfl rfl
                rfl
            | function definition =>
                refine kept.of_gains shows (kept.coherent.addMethodRead _) ?_
                rintro _ _ rfl rfl
                rfl
            | binding declarator =>
                exact kept.bindPattern shows fun _ =>
                  ReadRole.pattern?_mem_nodes_of_of? found inside

theorem Sourced.noteDeclarator (sourced : evidence.Sourced source conventions file tree)
    {node : Node} (inside : node ∈ tree.nodes) :
    (evidence.noteDeclarator source conventions node).Sourced source conventions file tree := by
  rw [Evidence.noteDeclarator]
  cases takes : TakenProperty.fromThis? source node with
  | none => exact sourced
  | some properties =>
      have kept := sourced.of_touches fun span =>
        sourced.coherent.component?_touches inside span
      generalize evidence.component? source conventions node = answer at kept ⊢
      obtain ⟨component?, next⟩ := answer
      cases component? with
      | none => exact kept
      | some component =>
          refine List.foldlRecOn properties _ kept fun _ sourced taken isTaken => ?_
          obtain ⟨keyInside, patternInside⟩ :=
            TakenProperty.mem_nodes_of_fromThis? inside takes isTaken
          exact sourced.bindPattern
            ⟨keyInside, Or.inr ⟨node, inside, properties, takes, taken, isTaken, rfl⟩⟩ patternInside

/-- Noting a node keeps the reads at nodes that show the state. -/
theorem Sourced.note (sourced : evidence.Sourced source conventions file tree) {node : Node}
    (inside : node ∈ tree.nodes) :
    (evidence.note source conventions node).Sourced source conventions file tree := by
  rw [Evidence.note]
  split_ifs
  · exact sourced.noteRead inside
  · exact sourced.of_touches (sourced.coherent.noteCall_touches inside)
  · exact sourced.of_touches (sourced.coherent.noteIdentifier_touches inside)
  · exact sourced.noteDeclarator inside
  · exact sourced

theorem Sourced.judge_close (sourced : evidence.Sourced source conventions file tree) :
    (evidence.close.judge source).Sourced source conventions file tree :=
  ⟨sourced.coherent.close.judge, fun span marks =>
    sourced.shown span ((sourced.coherent.marks_judge_close_iff span).mp marks)⟩

/-- In the end, every read is made at a node that shows the state, also where several nodes
have one span. -/
theorem sourced_ofTree (source : Source) (conventions : Conventions) (file : String)
    (tree : Tree) : (ofTree source conventions file tree).Sourced source conventions file tree := by
  rw [ofTree, ofNodes, stackWalk_eq_nodes]
  refine Sourced.judge_close ?_
  exact List.foldlRecOn tree.nodes _ (sourced_initial source conventions file tree)
    fun _ sourced _ inside => sourced.note inside

/-- The reads of all logged pairs, in the order of logging, as nodes. -/
theorem Sourced.exists_nodes (sourced : evidence.Sourced source conventions file tree) :
    ∃ nodes : List Node, (∀ node ∈ nodes, node.ShowsState source tree) ∧
      nodes.map Node.span = evidence.log.seen.reverse.map Prod.fst := by
  have spans : evidence.log.seen.reverse.map Prod.fst ∈
      Set.range (List.map fun node : { node : Node // node.ShowsState source tree } =>
        node.1.span) := by
    rw [Set.range_list_map]
    intro span member
    obtain ⟨pair, logged, rfl⟩ := List.mem_map.mp member
    obtain ⟨node, shows, same⟩ := sourced.shown pair.1
      (Or.inr (Or.inr ⟨pair, List.mem_reverse.mp logged, rfl⟩))
    exact ⟨⟨node, shows⟩, same⟩
  obtain ⟨nodes, same⟩ := spans
  refine ⟨nodes.map Subtype.val, ?_, by rw [← same, List.map_map]; rfl⟩
  intro node member
  obtain ⟨shown, _, rfl⟩ := List.mem_map.mp member
  exact shown.2

end Evidence

/-- **Findings lead back to the source.** Behind the findings in a file stand the reads that were
logged, each of them a node of the tree that shows the state. Counted back through the rows of
the source, the two ends of a finding are those of its node, its text is what the bytes between
them read as, and the nodes ascend by start, then by end. The bytes need not be UTF-8, and
nothing is assumed of the ranges in the tree. -/
theorem lint_madeAt (source : Source) (conventions : Conventions) (file : String) (tree : Tree) :
    ∃ reads : List Node, (∀ read ∈ reads, read.ShowsState source tree) ∧
      (reads.map Node.span).Perm
        ((Evidence.ofTree source conventions file tree).log.seen.map Prod.fst) ∧
      List.Forall₂ (fun finding read => finding.MadeAt source read.span)
        (lint source conventions file tree) reads ∧
      reads.Pairwise fun first second =>
        first.span.start < second.span.start ∨
          first.span.start = second.span.start ∧ first.span.stop ≤ second.span.stop := by
  have sourced := Evidence.sourced_ofTree source conventions file tree
  rw [lint]
  generalize Evidence.ofTree source conventions file tree = evidence at sourced ⊢
  obtain ⟨nodes, shown, spans⟩ := sourced.exists_nodes
  let made (read : Node) : Finding := .ofSpan source evidence.log.file .useCallback read.span
  have findings : evidence.log.findings = nodes.map made := by
    rw [sourced.coherent.log.findings, ← spans, List.map_map]
    rfl
  have sorted := Finding.stablySorted_sortBy evidence.log.findings
  have each : List.Forall₂ (· = made ·) evidence.log.findings nodes := by
    rw [findings, List.forall₂_map_left_iff, List.forall₂_same]
    exact fun _ _ => rfl
  obtain ⟨reads, listed, perm⟩ := List.perm_comp_forall₂ sorted.perm each
  refine ⟨reads, fun read member => shown read (perm.subset member), ?_, ?_, ?_⟩
  · have logged := (List.reverse_perm evidence.log.seen).map Prod.fst
    exact (perm.map Node.span).trans (spans ▸ logged)
  · refine listed.imp ?_
    rintro _ read rfl
    exact Finding.madeAt_ofSpan source _ _ read.span
  · have images : sortBy Finding.le evidence.log.findings = reads.map made := by
      rwa [← List.forall₂_eq_eq_eq, List.forall₂_map_right_iff]
    have ascending := sorted.pairwise
    rw [images, List.pairwise_map] at ascending
    exact ascending.imp fun {first second} le =>
      (Finding.le_ofSpan_iff source _ _ first.span second.span).mp le

end StaleRead
