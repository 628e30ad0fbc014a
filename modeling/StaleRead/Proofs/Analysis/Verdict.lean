import StaleRead.Proofs.Analysis.Sign

/-! # Verdicts

What is reported in the end is decided by the signs that were noted: a finding stands, a
remembered call is reported against each read of a method that its callee is or reaches,
and a remembered use is reported against each read that its binding holds. `Verdict` says
so without any order, and judging the closed evidence logs exactly the pairs that have a
verdict (`Evidence.mem_seen_ofNodes_iff`). So the order in which the nodes of a tree are
visited has no effect on its findings (`lint_eq_of_perm`).
-/

namespace StaleRead

/-- A call of the component from one method to another is shown. -/
def Sign.Calls (shown : Sign → Prop) (component : Span) (caller callee : String) : Prop :=
  shown (.methodCall ⟨component, caller, callee⟩)

/-- The pairs of a read and a site that are to be reported on account of some signs. -/
inductive Verdict (shown : Sign → Prop) : Span × Option Span → Prop
  /-- A finding stands. -/
  | direct {read : Span} {site? : Option Span} (found : shown (.finding read site?)) :
      Verdict shown (read, site?)
  /-- A call in a state update is reported against the reads of its callee and of the
  methods that the callee reaches. -/
  | helper {use : HelperUse} {reader : String} {read : Span} (waits : shown (.helperUse use))
      (chain : Relation.ReflTransGen (Sign.Calls shown use.component) use.callee reader)
      (reads : shown (.methodRead ⟨use.component, some reader, read⟩)) :
      Verdict shown (read, some use.node.span)
  /-- A use in a state update is reported against the reads that its binding holds. -/
  | identifier {use : BindingUse} {read : Span} (waits : shown (.bindingUse use))
      (held : shown (.bindingRead ⟨use.scope, some use.name, read⟩)) :
      Verdict shown (read, some use.node.span)

namespace Flow

variable {flow : Flow}

/-- The reads of a method after closing are those of the methods that it is or reaches. -/
theorem Coherent.mem_close_iff (coherent : flow.Coherent) (component : Span) (method : String)
    (read : Span) :
    ⟨component, some method, read⟩ ∈ flow.close.2.methodReads ↔
      ∃ reader, Relation.ReflTransGen (MethodCall.Direct flow.calls component) method reader ∧
        ⟨component, some reader, read⟩ ∈ flow.methodReads := by
  rw [coherent.mem_close_methodReads]
  constructor
  · rintro (recorded | ⟨caller, reader, same, recorded, chain⟩)
    · exact ⟨method, .refl, recorded⟩
    · obtain rfl := Option.some.inj same
      exact ⟨reader, chain.to_reflTransGen, recorded⟩
  · rintro ⟨reader, chain, recorded⟩
    rcases Relation.reflTransGen_iff_eq_or_transGen.mp chain with rfl | longer
    · exact Or.inl recorded
    · exact Or.inr ⟨method, reader, rfl, recorded, longer⟩

theorem Coherent.mem_readsOfMethod_iff (coherent : flow.Coherent) (component : Span)
    (method : String) (fact : MethodRead) :
    fact ∈ flow.readsOfMethod component (some method) ↔
      fact ∈ flow.methodReads ∧ fact.component = component ∧ fact.method? = some method := by
  rw [readsOfMethod, coherent.index, List.mem_filter, MethodRead.isOf, Bool.and_eq_true,
    beq_iff_eq, beq_iff_eq]

theorem mem_readsOfBinding_iff (flow : Flow) (scope : Span) (name? : Option String)
    (fact : BindingRead) :
    fact ∈ flow.readsOfBinding scope name? ↔
      fact ∈ flow.bindingReads ∧ fact.scope = scope ∧ fact.name? = name? := by
  rw [readsOfBinding, List.mem_filter, Bool.and_eq_true, beq_iff_eq, beq_iff_eq]

/-- What a remembered call is reported against. -/
def callPairs (flow : Flow) (call : HelperUse) : List (Span × Option Span) :=
  (flow.readsOfMethod call.component (some call.callee)).map
    fun fact => (fact.read, some call.node.span)

/-- What a remembered use is reported against. -/
def usePairs (flow : Flow) (use : BindingUse) : List (Span × Option Span) :=
  (flow.readsOfBinding use.scope (some use.name)).map fun fact => (fact.read, some use.node.span)

theorem Coherent.mem_callPairs_iff (coherent : flow.Coherent) (call : HelperUse)
    (pair : Span × Option Span) :
    pair ∈ flow.callPairs call ↔
      ∃ read, ⟨call.component, some call.callee, read⟩ ∈ flow.methodReads ∧
        (read, some call.node.span) = pair := by
  rw [callPairs, List.mem_map]
  constructor
  · rintro ⟨⟨component, method, read⟩, found, rfl⟩
    obtain ⟨recorded, rfl, rfl⟩ := (coherent.mem_readsOfMethod_iff _ _ _).mp found
    exact ⟨read, recorded, rfl⟩
  · rintro ⟨read, recorded, rfl⟩
    exact ⟨_, (coherent.mem_readsOfMethod_iff _ _ _).mpr ⟨recorded, rfl, rfl⟩, rfl⟩

theorem mem_usePairs_iff (flow : Flow) (use : BindingUse) (pair : Span × Option Span) :
    pair ∈ flow.usePairs use ↔
      ∃ read, ⟨use.scope, some use.name, read⟩ ∈ flow.bindingReads ∧
        (read, some use.node.span) = pair := by
  rw [usePairs, List.mem_map]
  constructor
  · rintro ⟨⟨scope, name, read⟩, found, rfl⟩
    obtain ⟨recorded, rfl, rfl⟩ := (mem_readsOfBinding_iff _ _ _ _).mp found
    exact ⟨read, recorded, rfl⟩
  · rintro ⟨read, recorded, rfl⟩
    exact ⟨_, (mem_readsOfBinding_iff _ _ _ _).mpr ⟨recorded, rfl, rfl⟩, rfl⟩

end Flow

namespace Evidence

/-- Report some pairs of a read and a site, one after the other. -/
def flagAll (source : Source) (evidence : Evidence) (pairs : List (Span × Option Span)) :
    Evidence :=
  pairs.foldl (fun evidence pair => evidence.flag source pair.1 pair.2) evidence

theorem flagAll_append (source : Source) (evidence : Evidence)
    (first second : List (Span × Option Span)) :
    evidence.flagAll source (first ++ second) =
      (evidence.flagAll source first).flagAll source second :=
  List.foldl_append

theorem flagAll_frame (source : Source) (evidence : Evidence)
    (pairs : List (Span × Option Span)) :
    (evidence.flagAll source pairs).flow = evidence.flow ∧
      (evidence.flagAll source pairs).bindingUses = evidence.bindingUses := by
  induction pairs generalizing evidence with
  | nil => exact ⟨rfl, rfl⟩
  | cons pair rest ih => exact ih (evidence.flag source pair.1 pair.2)

theorem foldl_judgeCall_eq (source : Source) (calls : List HelperUse) (evidence : Evidence) :
    calls.foldl (judgeCall source) evidence =
      evidence.flagAll source (calls.flatMap evidence.flow.callPairs) := by
  induction calls generalizing evidence with
  | nil => rfl
  | cons call rest ih =>
      have first : judgeCall source evidence call =
          evidence.flagAll source (evidence.flow.callPairs call) := by
        rw [judgeCall, flagAll, Flow.callPairs, List.foldl_map]
      rw [List.foldl_cons, ih, first, (flagAll_frame ..).1, List.flatMap_cons, flagAll_append]

theorem foldl_judgeUse_eq (source : Source) (uses : List BindingUse) (evidence : Evidence) :
    uses.foldl (judgeUse source) evidence =
      evidence.flagAll source (uses.flatMap evidence.flow.usePairs) := by
  induction uses generalizing evidence with
  | nil => rfl
  | cons use rest ih =>
      have first : judgeUse source evidence use =
          evidence.flagAll source (evidence.flow.usePairs use) := by
        rw [judgeUse, flagAll, Flow.usePairs, List.foldl_map]
      rw [List.foldl_cons, ih, first, (flagAll_frame ..).1, List.flatMap_cons, flagAll_append]

/-- What is to be reported when all facts are known. -/
def pending (evidence : Evidence) : List (Span × Option Span) :=
  evidence.helperUses.flatMap evidence.flow.callPairs ++
    evidence.bindingUses.flatMap evidence.flow.usePairs

theorem judge_eq (source : Source) (evidence : Evidence) :
    evidence.judge source = evidence.flagAll source evidence.pending := by
  rw [judge, foldl_judgeUse_eq, foldl_judgeCall_eq, (flagAll_frame ..).1, (flagAll_frame ..).2,
    pending, flagAll_append]

theorem flow_judge (source : Source) (evidence : Evidence) :
    (evidence.judge source).flow = evidence.flow := by
  rw [judge_eq, (flagAll_frame ..).1]

theorem helperUses_judge (source : Source) (evidence : Evidence) :
    (evidence.judge source).helperUses = evidence.helperUses := by
  rw [judge_eq]
  generalize evidence.pending = pairs
  induction pairs generalizing evidence with
  | nil => rfl
  | cons pair rest ih => exact ih (evidence.flag source pair.1 pair.2)

variable {source : Source} {conventions : Conventions} {file : String} {tree : Tree}
  {evidence : Evidence}

theorem Coherent.flagAll (coherent : evidence.Coherent source conventions file tree)
    (pairs : List (Span × Option Span)) :
    Gains source conventions file tree evidence
      (fun sign => ∃ pair ∈ pairs, sign = .finding pair.1 pair.2)
      (evidence.flagAll source pairs) :=
  coherent.foldl fun pair _ _ coherent => coherent.flag pair.1 pair.2

theorem Coherent.close (coherent : evidence.Coherent source conventions file tree) :
    evidence.close.Coherent source conventions file tree :=
  ⟨coherent.components, coherent.scopes, coherent.flow.close, coherent.log, coherent.file⟩

theorem Coherent.judge (coherent : evidence.Coherent source conventions file tree) :
    (evidence.judge source).Coherent source conventions file tree := by
  rw [judge_eq]
  exact (coherent.flagAll _).coherent

/-- Once the facts are closed, a pair is pending exactly if there is a verdict on account
of a call or of a use. -/
theorem Coherent.mem_pending_close_iff (coherent : evidence.Coherent source conventions file tree)
    (pair : Span × Option Span) :
    pair ∈ evidence.close.pending ∨ pair ∈ evidence.log.seen ↔ Verdict evidence.Holds pair := by
  have calls : ∀ component, MethodCall.Direct evidence.flow.calls component =
      Sign.Calls evidence.Holds component := fun _ => rfl
  simp only [pending, Evidence.close, List.mem_append, List.mem_flatMap,
    coherent.flow.close.mem_callPairs_iff, Flow.mem_usePairs_iff, Flow.close_bindingReads,
    coherent.flow.mem_close_iff, calls]
  constructor
  · rintro ((⟨use, waits, read, ⟨reader, chain, reads⟩, rfl⟩ | ⟨use, waits, read, held, rfl⟩) |
      logged)
    · exact .helper waits chain reads
    · exact .identifier waits held
    · exact .direct logged
  · rintro (found | ⟨waits, chain, reads⟩ | ⟨waits, held⟩)
    · exact Or.inr found
    · exact Or.inl (Or.inl ⟨_, waits, _, ⟨_, chain, reads⟩, rfl⟩)
    · exact Or.inl (Or.inr ⟨_, waits, _, held, rfl⟩)

theorem Coherent.mem_seen_judge_close_iff
    (coherent : evidence.Coherent source conventions file tree) (pair : Span × Option Span) :
    pair ∈ (evidence.close.judge source).log.seen ↔ Verdict evidence.Holds pair := by
  obtain ⟨read, site?⟩ := pair
  have logged := (coherent.close.flagAll evidence.close.pending).holds (.finding read site?)
  rw [← coherent.mem_pending_close_iff, judge_eq, or_comm]
  refine logged.trans (or_congr Iff.rfl ⟨?_, fun waits => ⟨_, waits, rfl⟩⟩)
  rintro ⟨pair, waits, same⟩
  cases same
  exact waits

/-- The evidence of some nodes of a tree holds, before it is judged, the signs that they
show. -/
theorem holds_noteAll_iff (source : Source) (conventions : Conventions) (file : String)
    (distinct : tree.SpansDistinct) {nodes : List Node} (inside : nodes ⊆ tree.nodes) :
    ((initial file tree).noteAll source conventions nodes).Holds =
      fun sign => ∃ node ∈ nodes, node.Shows source conventions tree sign := by
  have noted := (coherent_initial source conventions file tree).noteAll distinct inside
  funext sign
  rw [noted.holds, eq_iff_iff]
  exact or_iff_right (not_holds_initial file tree sign)

theorem coherent_ofNodes (source : Source) (conventions : Conventions) (file : String)
    (distinct : tree.SpansDistinct) {nodes : List Node} (inside : nodes ⊆ tree.nodes) :
    (ofNodes source conventions file tree nodes).Coherent source conventions file tree :=
  ((coherent_initial source conventions file tree).noteAll distinct inside).coherent.close.judge

/-- What is logged after a visit to some nodes of a tree is what there is a verdict on by
the signs that they show. -/
theorem mem_seen_ofNodes_iff (source : Source) (conventions : Conventions) (file : String)
    (distinct : tree.SpansDistinct) {nodes : List Node} (inside : nodes ⊆ tree.nodes)
    (pair : Span × Option Span) :
    pair ∈ (ofNodes source conventions file tree nodes).log.seen ↔
      Verdict (fun sign => ∃ node ∈ nodes, node.Shows source conventions tree sign) pair := by
  have noted := (coherent_initial source conventions file tree).noteAll distinct inside
  rw [ofNodes, noted.coherent.mem_seen_judge_close_iff, holds_noteAll_iff source conventions file
    distinct inside]

end Evidence

/-- **The order of the visit has no effect.** Where no two nodes of a tree have one span,
visiting its nodes in any order finds what the walk through the tree finds, in the same
order. -/
theorem lint_eq_of_perm (source : Source) (conventions : Conventions) (file : String)
    {tree : Tree} (distinct : tree.SpansDistinct) {nodes : List Node}
    (perm : nodes.Perm (stackWalk tree)) :
    (Evidence.ofNodes source conventions file tree nodes).log.sorted =
      lint source conventions file tree := by
  rw [stackWalk_eq_nodes] at perm
  have visited := Evidence.coherent_ofNodes source conventions file distinct perm.subset
  have walked := Evidence.coherent_ofNodes source conventions file distinct
    (List.Subset.refl tree.nodes)
  rw [lint, Evidence.ofTree, stackWalk_eq_nodes]
  refine visited.log.sorted_eq walked.log (visited.file.trans walked.file.symm) fun pair => ?_
  rw [Evidence.mem_seen_ofNodes_iff source conventions file distinct perm.subset,
    Evidence.mem_seen_ofNodes_iff source conventions file distinct (List.Subset.refl tree.nodes)]
  simp only [perm.mem_iff]

/-- A component with an update that calls a helper, which is declared behind it and reads
the state. -/
def helperSource : Source :=
  .ofText "class A extends C{m(){this.setState(this.h())}h(){return this.state}}"

/-- Conventions with one base class. -/
def plainConventions : Conventions := ⟨"React", "createReactClass", ["C"]⟩

/-- The tree of the component, down to the nodes that matter. -/
def helperTree : Tree :=
  ⟨"program", true, none, 0, 69, [
    ⟨"class_declaration", true, none, 0, 69, [
      ⟨"class_heritage", true, none, 8, 17, [⟨"identifier", true, none, 16, 17, []⟩]⟩,
      ⟨"class_body", true, some "body", 17, 69, [
        ⟨"method_definition", true, none, 18, 46, [
          ⟨"property_identifier", true, some "name", 18, 19, []⟩,
          ⟨"call_expression", true, none, 22, 45, [
            ⟨"member_expression", true, some "function", 22, 35, [
              ⟨"this", true, some "object", 22, 26, []⟩,
              ⟨"property_identifier", true, some "property", 27, 35, []⟩]⟩,
            ⟨"arguments", true, some "arguments", 35, 45, [
              ⟨"call_expression", true, none, 36, 44, [
                ⟨"member_expression", true, some "function", 36, 42, [
                  ⟨"this", true, some "object", 36, 40, []⟩,
                  ⟨"property_identifier", true, some "property", 41, 42, []⟩]⟩]⟩]⟩]⟩]⟩,
        ⟨"method_definition", true, none, 46, 68, [
          ⟨"property_identifier", true, some "name", 46, 47, []⟩,
          ⟨"member_expression", true, none, 57, 67, [
            ⟨"this", true, some "object", 57, 61, []⟩,
            ⟨"property_identifier", true, some "property", 62, 67, []⟩]⟩]⟩]⟩]⟩]⟩

theorem spansDistinct_helperTree : helperTree.SpansDistinct := by decide

theorem lint_helperTree_reverse :
    (helperTree.SpansDistinct ∧ helperTree.nodes.reverse.Perm (stackWalk helperTree)) ∧
      (Evidence.ofNodes helperSource plainConventions "a.js" helperTree
        helperTree.nodes.reverse).log.sorted =
          lint helperSource plainConventions "a.js" helperTree := by
  have perm : helperTree.nodes.reverse.Perm (stackWalk helperTree) := by
    rw [stackWalk_eq_nodes]
    exact List.reverse_perm _
  exact ⟨⟨spansDistinct_helperTree, perm⟩,
    lint_eq_of_perm _ _ _ spansDistinct_helperTree perm⟩

end StaleRead
