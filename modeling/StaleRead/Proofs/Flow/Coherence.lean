import Mathlib.Data.List.Nodup
import StaleRead.Flow.Closure

/-! # Coherent facts

The facts of a file are kept three times: as a list, as the keys of what was recorded,
and, for methods, in an index by name. `Flow.Coherent` says that the three agree. It
holds of no facts, every recording keeps it (`Flow.coherent_perform`), and so it holds
after every run of recordings and closures (`Flow.coherent_run`).
-/

namespace StaleRead

theorem MethodRead.key_injective : Function.Injective MethodRead.key := by
  rintro ⟨component, method, read⟩ ⟨otherComponent, otherMethod, otherRead⟩ same
  simp only [key, Prod.mk.injEq] at same
  obtain ⟨rfl, rfl, rfl⟩ := same
  rfl

theorem BindingRead.key_injective : Function.Injective BindingRead.key := by
  rintro ⟨scope, name, read⟩ ⟨otherScope, otherName, otherRead⟩ same
  simp only [key, Prod.mk.injEq] at same
  obtain ⟨rfl, rfl, rfl⟩ := same
  rfl

/-- The method that a read is filed under. -/
def MethodRead.isOf (component : Span) (method : String) (fact : MethodRead) : Bool :=
  fact.component == component && fact.method? == some method

namespace Flow

/-- The lists of facts, the keys and the index by method say the same. -/
structure Coherent (flow : Flow) : Prop where
  methodKeys : ∀ fact : MethodRead, fact.key ∈ flow.methodKeys ↔ fact ∈ flow.methodReads
  bindingKeys : ∀ fact : BindingRead, fact.key ∈ flow.bindingKeys ↔ fact ∈ flow.bindingReads
  methodReads_nodup : flow.methodReads.Nodup
  bindingReads_nodup : flow.bindingReads.Nodup
  index : ∀ component method, MethodIndex.find (component, method) flow.byMethod =
    flow.methodReads.filter (MethodRead.isOf component method)

theorem coherent_empty : empty.Coherent where
  methodKeys fact := by simp [empty]
  bindingKeys fact := by simp [empty]
  methodReads_nodup := List.nodup_nil
  bindingReads_nodup := List.nodup_nil
  index component method := rfl

theorem find_indexed (index : MethodIndex) (fact : MethodRead) (component : Span)
    (method : String) :
    MethodIndex.find (component, method) (indexed index fact) =
      MethodIndex.find (component, method) index ++
        [fact].filter (MethodRead.isOf component method) := by
  obtain ⟨owner, name, read⟩ := fact
  cases name with
  | none => simp [indexed, MethodRead.isOf]
  | some name =>
      rw [indexed, MethodIndex.find_file]
      by_cases same : (component, method) = (owner, name)
      · obtain ⟨rfl, rfl⟩ := Prod.mk.inj same
        simp [MethodRead.isOf]
      · have other : ¬ (owner = component ∧ name = method) := by
          rintro ⟨rfl, rfl⟩
          exact same rfl
        simp [same, MethodRead.isOf, other]

variable {flow : Flow}

theorem Coherent.addMethodRead_of_mem (coherent : flow.Coherent) {fact : MethodRead}
    (known : fact ∈ flow.methodReads) : flow.addMethodRead fact = (false, flow) := by
  rw [addMethodRead]
  exact if_pos ((coherent.methodKeys fact).mpr known)

theorem Coherent.addMethodRead_of_not_mem (coherent : flow.Coherent) {fact : MethodRead}
    (fresh : fact ∉ flow.methodReads) :
    flow.addMethodRead fact =
      (true, { flow with
        methodReads := flow.methodReads ++ [fact]
        byMethod := indexed flow.byMethod fact
        methodKeys := fact.key :: flow.methodKeys }) := by
  rw [addMethodRead]
  exact if_neg fun known => fresh ((coherent.methodKeys fact).mp known)

theorem Coherent.addBindingRead_of_mem (coherent : flow.Coherent) {fact : BindingRead}
    (known : fact ∈ flow.bindingReads) : flow.addBindingRead fact = (false, flow) := by
  rw [addBindingRead]
  exact if_pos ((coherent.bindingKeys fact).mpr known)

theorem Coherent.addBindingRead_of_not_mem (coherent : flow.Coherent) {fact : BindingRead}
    (fresh : fact ∉ flow.bindingReads) :
    flow.addBindingRead fact =
      (true, { flow with
        bindingReads := flow.bindingReads ++ [fact]
        bindingKeys := fact.key :: flow.bindingKeys }) := by
  rw [addBindingRead]
  exact if_neg fun known => fresh ((coherent.bindingKeys fact).mp known)

@[simp] theorem bindingReads_addMethodRead (flow : Flow) (fact : MethodRead) :
    (flow.addMethodRead fact).2.bindingReads = flow.bindingReads := by
  rw [addMethodRead]
  split <;> rfl

@[simp] theorem calls_addMethodRead (flow : Flow) (fact : MethodRead) :
    (flow.addMethodRead fact).2.calls = flow.calls := by
  rw [addMethodRead]
  split <;> rfl

@[simp] theorem methodReads_addBindingRead (flow : Flow) (fact : BindingRead) :
    (flow.addBindingRead fact).2.methodReads = flow.methodReads := by
  rw [addBindingRead]
  split <;> rfl

@[simp] theorem calls_addBindingRead (flow : Flow) (fact : BindingRead) :
    (flow.addBindingRead fact).2.calls = flow.calls := by
  rw [addBindingRead]
  split <;> rfl

@[simp] theorem methodReads_addCall (flow : Flow) (call : MethodCall) :
    (flow.addCall call).methodReads = flow.methodReads := by
  rw [addCall]
  split <;> rfl

@[simp] theorem bindingReads_addCall (flow : Flow) (call : MethodCall) :
    (flow.addCall call).bindingReads = flow.bindingReads := by
  rw [addCall]
  split <;> rfl

theorem mem_addCall (flow : Flow) (call other : MethodCall) :
    other ∈ (flow.addCall call).calls ↔ other ∈ flow.calls ∨ other = call := by
  rw [addCall]
  split
  · rename_i known
    exact (or_iff_left_of_imp fun same => same ▸ known).symm
  · rw [List.mem_append, List.mem_singleton]

theorem Coherent.mem_addMethodRead (coherent : flow.Coherent) (fact other : MethodRead) :
    other ∈ (flow.addMethodRead fact).2.methodReads ↔
      other ∈ flow.methodReads ∨ other = fact := by
  by_cases known : fact ∈ flow.methodReads
  · rw [coherent.addMethodRead_of_mem known]
    exact (or_iff_left_of_imp fun same => same ▸ known).symm
  · rw [coherent.addMethodRead_of_not_mem known, List.mem_append, List.mem_singleton]

theorem Coherent.mem_addBindingRead (coherent : flow.Coherent) (fact other : BindingRead) :
    other ∈ (flow.addBindingRead fact).2.bindingReads ↔
      other ∈ flow.bindingReads ∨ other = fact := by
  by_cases known : fact ∈ flow.bindingReads
  · rw [coherent.addBindingRead_of_mem known]
    exact (or_iff_left_of_imp fun same => same ▸ known).symm
  · rw [coherent.addBindingRead_of_not_mem known, List.mem_append, List.mem_singleton]

theorem Coherent.addMethodRead (coherent : flow.Coherent) (fact : MethodRead) :
    (flow.addMethodRead fact).2.Coherent := by
  by_cases known : fact ∈ flow.methodReads
  · rw [coherent.addMethodRead_of_mem known]
    exact coherent
  · rw [coherent.addMethodRead_of_not_mem known]
    refine ⟨?_, coherent.bindingKeys, ?_, coherent.bindingReads_nodup, ?_⟩
    · intro other
      rw [List.mem_cons, MethodRead.key_injective.eq_iff, coherent.methodKeys, List.mem_append,
        List.mem_singleton, or_comm]
    · rw [← List.concat_eq_append]
      exact coherent.methodReads_nodup.concat known
    · intro component method
      rw [find_indexed, coherent.index, List.filter_append]

theorem Coherent.addBindingRead (coherent : flow.Coherent) (fact : BindingRead) :
    (flow.addBindingRead fact).2.Coherent := by
  by_cases known : fact ∈ flow.bindingReads
  · rw [coherent.addBindingRead_of_mem known]
    exact coherent
  · rw [coherent.addBindingRead_of_not_mem known]
    refine ⟨coherent.methodKeys, ?_, coherent.methodReads_nodup, ?_, coherent.index⟩
    · intro other
      rw [List.mem_cons, BindingRead.key_injective.eq_iff, coherent.bindingKeys, List.mem_append,
        List.mem_singleton, or_comm]
    · rw [← List.concat_eq_append]
      exact coherent.bindingReads_nodup.concat known

theorem Coherent.addCall (coherent : flow.Coherent) (call : MethodCall) :
    (flow.addCall call).Coherent := by
  rw [Flow.addCall]
  split
  · exact coherent
  · exact ⟨coherent.methodKeys, coherent.bindingKeys, coherent.methodReads_nodup,
      coherent.bindingReads_nodup, coherent.index⟩

theorem Coherent.addToCallers (fact : MethodRead) (callers : List String) {flow : Flow}
    (coherent : flow.Coherent) (added : Nat) :
    (addToCallers fact added flow callers).2.Coherent := by
  induction callers generalizing flow added with
  | nil => exact coherent
  | cons caller callers ih => exact ih (coherent.addMethodRead _) _

theorem Coherent.addAllToCallers (callersOf : MethodRead → List String)
    (facts : List MethodRead) {flow : Flow} (coherent : flow.Coherent) (added : Nat) :
    (addAllToCallers callersOf added flow facts).2.Coherent := by
  induction facts generalizing flow added with
  | nil => exact coherent
  | cons fact rest ih => exact ih (coherent.addToCallers fact _ _) _

theorem Coherent.close (coherent : flow.Coherent) : flow.close.2.Coherent :=
  coherent.addAllToCallers _ _ _

/-- What can be done to the facts of a file. -/
inductive Operation where
  | methodRead (fact : MethodRead)
  | bindingRead (fact : BindingRead)
  | call (call : MethodCall)
  | close

/-- The facts after one operation. -/
def perform (flow : Flow) : Operation → Flow
  | .methodRead fact => (flow.addMethodRead fact).2
  | .bindingRead fact => (flow.addBindingRead fact).2
  | .call call => flow.addCall call
  | .close => flow.close.2

/-- The facts after some operations, from none. -/
def run (operations : List Operation) : Flow :=
  operations.foldl perform empty

theorem coherent_perform (coherent : flow.Coherent) (operation : Operation) :
    (flow.perform operation).Coherent := by
  cases operation with
  | methodRead fact => exact coherent.addMethodRead fact
  | bindingRead fact => exact coherent.addBindingRead fact
  | call call => exact coherent.addCall call
  | close => exact coherent.close

/-- The facts are coherent after any operations. -/
theorem coherent_run (operations : List Operation) : (run operations).Coherent := by
  have kept : ∀ {flow : Flow}, flow.Coherent → (operations.foldl perform flow).Coherent := by
    induction operations with
    | nil => exact id
    | cons operation rest ih => exact fun coherent => ih (coherent_perform coherent operation)
  exact kept coherent_empty

end Flow

end StaleRead
