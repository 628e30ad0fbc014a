import Mathlib.Data.List.Induction
import StaleRead.Proofs.Flow.Closure

/-! # Closing early or often

A read follows from some operations if one of them records it, or if one of them records
that its method calls another one of which the read follows. A closing along the way only
ever adds reads that follow (`Flow.Accounts.perform`), and a closing at the end adds all of
them (`Flow.mem_methodReads_run_close_iff`). So the facts in the end are those that follow
from what was recorded: the order of the recordings, and the closings before the last one,
have no effect (`Flow.run_close_confluent`).
-/

namespace StaleRead.Flow

/-- Whether an operation records a fact. -/
def Operation.records : Operation → Bool
  | .close => false
  | _ => true

/-- The reads of methods that follow from some operations. -/
inductive Follows (operations : List Operation) : MethodRead → Prop
  | recorded {fact : MethodRead} (records : .methodRead fact ∈ operations) :
      Follows operations fact
  | called {component read : Span} {caller callee : String}
      (reads : Follows operations ⟨component, some callee, read⟩)
      (calls : .call ⟨component, caller, callee⟩ ∈ operations) :
      Follows operations ⟨component, some caller, read⟩

variable {operations : List Operation} {flow : Flow}

/-- What follows from some operations follows from others with the same recordings. -/
theorem Follows.of_recordings {others : List Operation}
    (known : ∀ operation, operation.records = true → operation ∈ operations →
      operation ∈ others)
    {fact : MethodRead} (follows : Follows operations fact) : Follows others fact := by
  induction follows with
  | recorded records => exact .recorded (known _ rfl records)
  | called _ calls ih => exact .called ih (known _ rfl calls)

/-- The facts hold the recorded calls and bindings and nothing else of that kind, and of
the reads of methods they hold the recorded ones and none that does not follow. -/
structure Accounts (operations : List Operation) (flow : Flow) : Prop where
  calls : ∀ call, call ∈ flow.calls ↔ .call call ∈ operations
  bindings : ∀ fact, fact ∈ flow.bindingReads ↔ .bindingRead fact ∈ operations
  recorded : ∀ fact, .methodRead fact ∈ operations → fact ∈ flow.methodReads
  sound : ∀ fact ∈ flow.methodReads, Follows operations fact

namespace Accounts

/-- A chain of recorded calls carries a read from the method that it ends at to the one
that it starts from. -/
theorem follows_of_reaches (accounts : Accounts operations flow) {component read : Span}
    {caller callee : String} (chain : MethodCall.Reaches flow.calls component caller callee)
    (follows : Follows operations ⟨component, some callee, read⟩) :
    Follows operations ⟨component, some caller, read⟩ := by
  induction chain using Relation.TransGen.head_induction_on with
  | single step => exact .called follows ((accounts.calls _).mp step)
  | head step _ ih => exact .called ih ((accounts.calls _).mp step)

theorem follows_of_derives (accounts : Accounts operations flow) {fact : MethodRead}
    (derives : flow.Derives fact) : Follows operations fact := by
  obtain ⟨component, name, read⟩ := fact
  obtain ⟨caller, callee, rfl, reads, chain⟩ := derives
  exact accounts.follows_of_reaches chain (accounts.sound _ reads)

/-- What one more operation leaves, if it records what it says and loses nothing. -/
theorem gain (accounts : Accounts operations flow) {operation : Operation} {next : Flow}
    (calls : ∀ call, call ∈ next.calls ↔ call ∈ flow.calls ∨ .call call = operation)
    (bindings : ∀ fact,
      fact ∈ next.bindingReads ↔ fact ∈ flow.bindingReads ∨ .bindingRead fact = operation)
    (recorded : ∀ fact,
      fact ∈ flow.methodReads ∨ .methodRead fact = operation → fact ∈ next.methodReads)
    (sound : ∀ fact ∈ next.methodReads,
      Follows operations fact ∨ .methodRead fact = operation) :
    Accounts (operations ++ [operation]) next := by
  have split : ∀ other, other ∈ operations ++ [operation] ↔
      other ∈ operations ∨ other = operation := by
    simp
  refine ⟨fun call => ?_, fun fact => ?_, fun fact records => ?_, fun fact member => ?_⟩
  · rw [calls, accounts.calls, split]
  · rw [bindings, accounts.bindings, split]
  · exact recorded fact (((split _).mp records).imp_left (accounts.recorded fact))
  · rcases sound fact member with follows | rfl
    · exact follows.of_recordings fun _ _ known => (split _).mpr (Or.inl known)
    · exact .recorded ((split _).mpr (Or.inr rfl))

/-- One more operation is accounted for, a recording as well as a closing. -/
theorem perform (accounts : Accounts operations flow) (coherent : flow.Coherent)
    (operation : Operation) : Accounts (operations ++ [operation]) (flow.perform operation) := by
  cases operation with
  | methodRead fact =>
      apply accounts.gain
      · simp [Flow.perform]
      · simp [Flow.perform]
      · intro other known
        exact (coherent.mem_addMethodRead fact other).mpr (by simpa using known)
      · intro other member
        rw [Flow.perform, coherent.mem_addMethodRead] at member
        simpa using member.imp_left (accounts.sound other)
  | bindingRead fact =>
      apply accounts.gain
      · simp [Flow.perform]
      · simp [Flow.perform, coherent.mem_addBindingRead]
      · simp [Flow.perform]
      · intro other member
        rw [Flow.perform, methodReads_addBindingRead] at member
        exact Or.inl (accounts.sound other member)
  | call call =>
      apply accounts.gain
      · simp [Flow.perform, mem_addCall]
      · simp [Flow.perform]
      · simp [Flow.perform]
      · intro other member
        rw [Flow.perform, methodReads_addCall] at member
        exact Or.inl (accounts.sound other member)
  | close =>
      apply accounts.gain
      · simp [Flow.perform, close_calls]
      · simp [Flow.perform, close_bindingReads]
      · intro other known
        exact (coherent.mem_close_methodReads other).mpr (Or.inl (by simpa using known))
      · intro other member
        rcases (coherent.mem_close_methodReads other).mp member with reads | derives
        · exact Or.inl (accounts.sound other reads)
        · exact Or.inl (accounts.follows_of_derives derives)

end Accounts

theorem run_append_singleton (operations : List Operation) (operation : Operation) :
    run (operations ++ [operation]) = (run operations).perform operation :=
  List.foldl_append

/-- The facts account for any operations, with closings wherever they are. -/
theorem accounts_run (operations : List Operation) : Accounts operations (run operations) := by
  induction operations using List.reverseRecOn with
  | nil => exact ⟨fun _ => by simp [run, empty], fun _ => by simp [run, empty], nofun, nofun⟩
  | append_singleton operations operation ih =>
      rw [run_append_singleton]
      exact ih.perform (coherent_run operations) operation

/-- After a closing at the end, a method reads the state exactly if that follows. -/
theorem mem_methodReads_run_close_iff (operations : List Operation) (fact : MethodRead) :
    fact ∈ (run (operations ++ [.close])).methodReads ↔ Follows operations fact := by
  have coherent := coherent_run operations
  have accounts := accounts_run operations
  rw [run_append_singleton, perform]
  constructor
  · intro reads
    rcases (coherent.mem_close_methodReads fact).mp reads with known | derives
    · exact accounts.sound fact known
    · exact accounts.follows_of_derives derives
  · intro follows
    induction follows with
    | recorded records =>
        exact (coherent.mem_close_methodReads _).mpr (Or.inl (accounts.recorded _ records))
    | called _ calls ih =>
        -- What is closed already has no read that a call could still carry further.
        apply coherent.mem_of_derives_close
        refine ⟨_, _, rfl, ih, .single ?_⟩
        rw [close_calls]
        exact (accounts.calls _).mpr calls

/-- **When and how often the facts are closed does not matter.** Two runs with the same
recordings, in any order and with closings anywhere among them, hold the same facts if both
end with a closing. -/
theorem run_close_confluent {first second : List Operation}
    (recordings : (first.filter Operation.records).Perm (second.filter Operation.records)) :
    (∀ fact, fact ∈ (run (first ++ [.close])).methodReads ↔
      fact ∈ (run (second ++ [.close])).methodReads) ∧
    (∀ fact, fact ∈ (run (first ++ [.close])).bindingReads ↔
      fact ∈ (run (second ++ [.close])).bindingReads) ∧
    ∀ call, call ∈ (run (first ++ [.close])).calls ↔
      call ∈ (run (second ++ [.close])).calls := by
  have same : ∀ operation : Operation, operation.records = true →
      (operation ∈ first ↔ operation ∈ second) := by
    intro operation records
    have member := recordings.mem_iff (a := operation)
    rwa [List.mem_filter, List.mem_filter, and_iff_left records, and_iff_left records] at member
  have firstAccounts := accounts_run (first ++ [.close])
  have secondAccounts := accounts_run (second ++ [.close])
  refine ⟨fun fact => ?_, fun fact => ?_, fun call => ?_⟩
  · rw [mem_methodReads_run_close_iff, mem_methodReads_run_close_iff]
    exact ⟨Follows.of_recordings fun operation records => (same operation records).mp,
      Follows.of_recordings fun operation records => (same operation records).mpr⟩
  · rw [firstAccounts.bindings, secondAccounts.bindings]
    simpa using same (.bindingRead fact) rfl
  · rw [firstAccounts.calls, secondAccounts.calls]
    simpa using same (.call call) rfl

theorem mem_run_close_of_early :
    let component : Span := ⟨0, 9, "class"⟩
    let read : Operation := .methodRead ⟨component, some "h", ⟨1, 2, "member_expression"⟩⟩
    let inner : Operation := .call ⟨component, "g", "h"⟩
    let outer : Operation := .call ⟨component, "f", "g"⟩
    ([.close, outer, .close, read, inner].filter Operation.records).Perm
        ([read, inner, .close, outer].filter Operation.records) ∧
      (⟨component, some "f", ⟨1, 2, "member_expression"⟩⟩ : MethodRead) ∈
        (run ([read, inner, .close, outer] ++ [.close])).methodReads := by
  intro component read inner outer
  have recordings : ([.close, outer, .close, read, inner].filter Operation.records).Perm
      ([read, inner, .close, outer].filter Operation.records) := by
    have rotated : ([outer] ++ [read, inner]).Perm ([read, inner] ++ [outer]) :=
      List.perm_append_comm
    exact rotated
  refine ⟨recordings, ((run_close_confluent recordings).1 _).mp ?_⟩
  apply (mem_methodReads_run_close_iff _ _).mpr
  have recorded : Follows [.close, outer, .close, read, inner]
      ⟨component, some "h", ⟨1, 2, "member_expression"⟩⟩ := .recorded (by simp [read])
  have carried : Follows [.close, outer, .close, read, inner]
      ⟨component, some "g", ⟨1, 2, "member_expression"⟩⟩ := .called recorded (by simp [inner])
  exact .called carried (by simp [outer])

end StaleRead.Flow
