import StaleRead.Proofs.Flow.Closure

/-! # The tables of facts

Recordings and closings keep the tables of facts in step. Wherever they lead, each key is
listed once, the keys that are kept beside a list are those of the list, and a look-up finds
what a pass through the list finds (`Flow.InStep`). This does not depend on the order in which
a closing lists the callers of a read. No step removes or moves a fact, so a later list of facts
continues every earlier one (`Flow.inStep_of_steps`).
-/

namespace StaleRead

theorem MethodRead.key_bijective : Function.Bijective MethodRead.key :=
  ⟨key_injective, fun ⟨component, method, read⟩ => ⟨⟨component, method, read⟩, rfl⟩⟩

theorem BindingRead.key_bijective : Function.Bijective BindingRead.key :=
  ⟨key_injective, fun ⟨scope, name, read⟩ => ⟨⟨scope, name, read⟩, rfl⟩⟩

namespace Flow

/-- One recording, or one closing that lists the callers of each read in any order. Looking
up is not among the steps: it gives a list of facts and leaves the tables as they are. -/
inductive Step (flow : Flow) : Flow → Prop
  | perform (operation : Operation) : Step flow (flow.perform operation)
  | close {callersOf : MethodRead → List String} (lists : flow.Lists callersOf) :
      Step flow (flow.closeVia callersOf).2

/-- Some steps lead from the first facts to the second. -/
abbrev Steps : Flow → Flow → Prop := Relation.ReflTransGen Step

/-- A table lists each key once, and the keys that are kept beside it are those listed. -/
structure Keyed {α : Type} (key : α → ReadKey) (table : List α) (keys : List ReadKey) :
    Prop where
  once : (table.map key).Nodup
  kept : ∀ other, other ∈ keys ↔ other ∈ table.map key

/-- The tables agree with each other, and the look-ups with the tables. -/
structure InStep (flow : Flow) : Prop where
  methods : Keyed MethodRead.key flow.methodReads flow.methodKeys
  bindings : Keyed BindingRead.key flow.bindingReads flow.bindingKeys
  index : ∀ component method, MethodIndex.find (component, method) flow.byMethod =
    flow.methodReads.filter (MethodRead.isOf component method)
  named : ∀ component method, flow.readsOfMethod component (some method) =
    flow.methodReads.filter (MethodRead.isOf component method)
  anonymous : ∀ component, flow.readsOfMethod component none = []
  bound : ∀ scope name?, flow.readsOfBinding scope name? =
    flow.bindingReads.filter fun fact => fact.scope == scope && fact.name? == name?

/-- Adding a fact to a table tells whether its key is new. A fact with a new key goes behind
the others; for a key that is there nothing changes. -/
structure Appends {α : Type} (key : α → ReadKey) (table : Flow → List α)
    (add : Flow → α → Bool × Flow) (flow : Flow) (fact : α) : Prop where
  isNew_iff : (add flow fact).1 = true ↔ key fact ∉ (table flow).map key
  fresh : key fact ∉ (table flow).map key → table (add flow fact).2 = table flow ++ [fact]
  known : key fact ∈ (table flow).map key → (add flow fact).2 = flow

/-- The lists of some later facts begin with those of the earlier ones. -/
structure Continues (later earlier : Flow) : Prop where
  methodReads : earlier.methodReads <+: later.methodReads
  bindingReads : earlier.bindingReads <+: later.bindingReads
  calls : earlier.calls <+: later.calls

variable {flow next : Flow}

/-- Where facts are known by their keys, a table without repetitions is keyed by the keys of
its facts. -/
theorem keyed_of_mem_iff {α : Type} {key : α → ReadKey} (bijective : Function.Bijective key)
    {table : List α} {keys : List ReadKey} (nodup : table.Nodup)
    (kept : ∀ fact, key fact ∈ keys ↔ fact ∈ table) : Keyed key table keys where
  once := nodup.map bijective.injective
  kept other := by
    obtain ⟨fact, rfl⟩ := bijective.surjective other
    rw [kept, List.mem_map_of_injective bijective.injective]

theorem Coherent.inStep (coherent : flow.Coherent) : flow.InStep where
  methods := keyed_of_mem_iff MethodRead.key_bijective coherent.methodReads_nodup
    coherent.methodKeys
  bindings := keyed_of_mem_iff BindingRead.key_bijective coherent.bindingReads_nodup
    coherent.bindingKeys
  index := coherent.index
  named := coherent.index
  anonymous _ := rfl
  bound _ _ := rfl

/-- Where facts are known by their keys, it is enough to say what happens to a fact that is
listed and to one that is not. -/
theorem appends_of_mem {α : Type} {key : α → ReadKey} (injective : Function.Injective key)
    {table : Flow → List α} {add : Flow → α → Bool × Flow} {fact : α}
    (listed : fact ∈ table flow → add flow fact = (false, flow))
    (missing : fact ∉ table flow →
      (add flow fact).1 = true ∧ table (add flow fact).2 = table flow ++ [fact]) :
    Appends key table add flow fact := by
  have there : key fact ∈ (table flow).map key ↔ fact ∈ table flow :=
    List.mem_map_of_injective injective
  refine ⟨?_, fun fresh => (missing (mt there.mpr fresh)).2,
    fun known => by rw [listed (there.mp known)]⟩
  rw [there]
  by_cases known : fact ∈ table flow
  · simp [listed known, known]
  · exact iff_of_true (missing known).1 known

theorem Coherent.appends_methodRead (coherent : flow.Coherent) (fact : MethodRead) :
    Appends MethodRead.key Flow.methodReads Flow.addMethodRead flow fact := by
  apply appends_of_mem MethodRead.key_injective coherent.addMethodRead_of_mem
  intro missing
  rw [coherent.addMethodRead_of_not_mem missing]
  exact ⟨rfl, rfl⟩

theorem Coherent.appends_bindingRead (coherent : flow.Coherent) (fact : BindingRead) :
    Appends BindingRead.key Flow.bindingReads Flow.addBindingRead flow fact := by
  apply appends_of_mem BindingRead.key_injective coherent.addBindingRead_of_mem
  intro missing
  rw [coherent.addBindingRead_of_not_mem missing]
  exact ⟨rfl, rfl⟩

theorem Continues.refl (flow : Flow) : flow.Continues flow :=
  ⟨List.prefix_rfl, List.prefix_rfl, List.prefix_rfl⟩

theorem Continues.trans {last : Flow} (second : last.Continues next)
    (first : next.Continues flow) : last.Continues flow :=
  ⟨first.methodReads.trans second.methodReads, first.bindingReads.trans second.bindingReads,
    first.calls.trans second.calls⟩

theorem Appends.prefix_table {α : Type} {key : α → ReadKey} {table : Flow → List α}
    {add : Flow → α → Bool × Flow} {fact : α} (appends : Appends key table add flow fact) :
    table flow <+: table (add flow fact).2 := by
  by_cases known : key fact ∈ (table flow).map key
  · have same : table (add flow fact).2 = table flow := congrArg table (appends.known known)
    exact same ▸ List.prefix_rfl
  · rw [appends.fresh known]
    exact List.prefix_append ..

theorem calls_prefix_addCall (flow : Flow) (call : MethodCall) :
    flow.calls <+: (flow.addCall call).calls := by
  rw [addCall]
  split
  · exact List.prefix_rfl
  · exact List.prefix_append ..

theorem Coherent.continues_closeVia (coherent : flow.Coherent)
    {callersOf : MethodRead → List String} (lists : flow.Lists callersOf) :
    (flow.closeVia callersOf).2.Continues flow := by
  obtain ⟨derived, grown, -, -⟩ := coherent.closeVia lists
  obtain ⟨bindings, calls⟩ := closeVia_frame flow callersOf
  exact ⟨⟨derived, grown.symm⟩, bindings ▸ List.prefix_rfl, calls ▸ List.prefix_rfl⟩

theorem Coherent.continues_perform (coherent : flow.Coherent) (operation : Operation) :
    (flow.perform operation).Continues flow := by
  cases operation with
  | methodRead fact =>
      exact ⟨(coherent.appends_methodRead fact).prefix_table, by simp [perform],
        by simp [perform]⟩
  | bindingRead fact =>
      exact ⟨by simp [perform], (coherent.appends_bindingRead fact).prefix_table,
        by simp [perform]⟩
  | call call => exact ⟨by simp [perform], by simp [perform], calls_prefix_addCall flow call⟩
  | close => exact coherent.continues_closeVia flow.callersOf_lists

/-- One step keeps the tables in step and continues their lists. -/
theorem Coherent.of_step (coherent : flow.Coherent) (step : Step flow next) :
    next.Coherent ∧ next.Continues flow := by
  cases step with
  | perform operation =>
      exact ⟨coherent_perform coherent operation, coherent.continues_perform operation⟩
  | close lists =>
      exact ⟨coherent.addAllToCallers _ _ _, coherent.continues_closeVia lists⟩

/-- Any steps keep the tables in step and continue their lists. -/
theorem Coherent.of_steps (coherent : flow.Coherent) (steps : Steps flow next) :
    next.Coherent ∧ next.Continues flow := by
  induction steps with
  | refl => exact ⟨coherent, Continues.refl flow⟩
  | tail _ step ih =>
      obtain ⟨kept, continued⟩ := ih.1.of_step step
      exact ⟨kept, continued.trans ih.2⟩

/-- The facts after some operations are among those that steps lead to. -/
theorem steps_run (operations : List Operation) : Steps empty (run operations) := by
  have onward : ∀ flow, Steps flow (operations.foldl perform flow) := by
    induction operations with
    | nil => exact fun _ => .refl
    | cons operation rest ih => exact fun flow => .head (.perform operation) (ih _)
  exact onward empty

/-- **The tables are in step wherever recordings and closings lead.** Each key is listed once
and kept beside its list, and a look-up finds what a pass through the list finds. Recording a
fact tells whether its key is new, and puts it behind the others exactly then. No later step
removes or moves a fact. -/
theorem inStep_of_steps (reached : Steps empty flow) :
    flow.InStep ∧
      (∀ fact, Appends MethodRead.key Flow.methodReads Flow.addMethodRead flow fact) ∧
      (∀ fact, Appends BindingRead.key Flow.bindingReads Flow.addBindingRead flow fact) ∧
      ∀ later, Steps flow later → later.Continues flow := by
  have coherent := (coherent_empty.of_steps reached).1
  exact ⟨coherent.inStep, coherent.appends_methodRead, coherent.appends_bindingRead,
    fun later steps => (coherent.of_steps steps).2⟩

/-- A read that is recorded twice is listed once, also after a closing. -/
theorem inStep_repeatedRead :
    let component : Span := ⟨0, 9, "class"⟩
    let read : MethodRead := ⟨component, some "get", ⟨1, 2, "member_expression"⟩⟩
    let flow := run [.methodRead read, .call ⟨component, "show", "get"⟩, .methodRead read]
    Steps empty flow ∧ flow.InStep ∧ (flow.addMethodRead read).2 = flow ∧
      [read] <+: flow.close.2.methodReads := by
  intro component read flow
  have reached : Steps empty flow := steps_run _
  obtain ⟨inStep, appends, -, continues⟩ := inStep_of_steps reached
  have listed : flow.methodReads = [read] := rfl
  refine ⟨reached, inStep, (appends read).known (by rw [listed]; exact List.mem_singleton_self _),
    ?_⟩
  have closed := (continues _ (.single (.perform .close))).methodReads
  rwa [listed] at closed

end Flow

end StaleRead
