import Mathlib.Data.List.Basic
import Mathlib.Logic.Relation
import StaleRead.Flow.Closure

/-! # Chains of calls

One method reaches another if a chain of one or more calls of their component leads from
it to the other. The search that follows calls backwards and uses them up finds exactly
the methods that reach its targets (`MethodCall.mem_callersReaching_iff`), on any call
graph; the transitive callers of a method are those that reach it, without the method
itself (`MethodCall.mem_transitiveCallers_iff`).
-/

namespace StaleRead.MethodCall

/-- One of the calls leads from the first method to the second. -/
def Leads (calls : List MethodCall) (caller callee : String) : Prop :=
  ∃ call ∈ calls, call.caller = caller ∧ call.callee = callee

/-- One of the calls of a component leads from the first method to the second. -/
def Direct (calls : List MethodCall) (component : Span) (caller callee : String) : Prop :=
  (⟨component, caller, callee⟩ : MethodCall) ∈ calls

/-- A chain of one or more calls of a component leads from the first method to the
second. -/
def Reaches (calls : List MethodCall) (component : Span) : String → String → Prop :=
  Relation.TransGen (Direct calls component)

theorem leads_filter_component (calls : List MethodCall) (component : Span) :
    Leads (calls.filter (·.component == component)) = Direct calls component := by
  funext caller callee
  apply propext
  constructor
  · rintro ⟨⟨owner, _, _⟩, member, rfl, rfl⟩
    obtain ⟨recorded, same⟩ := List.mem_filter.mp member
    rw [beq_iff_eq] at same
    subst same
    exact recorded
  · intro recorded
    exact ⟨_, List.mem_filter.mpr ⟨recorded, beq_self_eq_true _⟩, rfl, rfl⟩

theorem leads_mono {first second : List MethodCall} (subset : first ⊆ second) :
    Leads first ≤ Leads second := by
  rintro caller callee ⟨call, member, ends⟩
  exact ⟨call, subset member, ends⟩

theorem reaches_of_mem_callersReaching (targets : List String) (calls : List MethodCall)
    (caller : String) (found : caller ∈ callersReaching targets calls) :
    ∃ target ∈ targets, Relation.TransGen (Leads calls) caller target := by
  fun_induction callersReaching targets calls with
  | case1 => exact (List.not_mem_nil found).elim
  | case2 targets calls hit ih =>
      rcases List.mem_append.mp found with direct | later
      · obtain ⟨call, hits, rfl⟩ := List.mem_map.mp direct
        obtain ⟨recorded, aimed⟩ := List.mem_filter.mp hits
        exact ⟨call.callee, of_decide_eq_true aimed, .single ⟨call, recorded, rfl, rfl⟩⟩
      · obtain ⟨middle, between, chain⟩ := ih later
        obtain ⟨call, hits, rfl⟩ := List.mem_map.mp between
        obtain ⟨recorded, aimed⟩ := List.mem_filter.mp hits
        have whole : Relation.TransGen (Leads calls) caller call.caller :=
          Relation.TransGen.mono (leads_mono (List.filter_subset_self _)) _ _ chain
        exact ⟨call.callee, of_decide_eq_true aimed, whole.tail ⟨call, recorded, rfl, rfl⟩⟩

/-- A chain to a target ends with a call that hits it, and what is before the first such
call consists of calls that hit none. -/
theorem hits_or_reaches_hit {targets : List String} {calls : List MethodCall}
    {caller target : String} (aimed : target ∈ targets)
    (chain : Relation.TransGen (Leads calls) caller target) :
    caller ∈ (hitting targets calls).map MethodCall.caller ∨
      ∃ middle ∈ (hitting targets calls).map MethodCall.caller,
        Relation.TransGen (Leads (missing targets calls)) caller middle := by
  induction chain using Relation.TransGen.head_induction_on with
  | single step =>
      obtain ⟨call, recorded, rfl, rfl⟩ := step
      exact Or.inl (List.mem_map_of_mem (List.mem_filter.mpr ⟨recorded, decide_eq_true aimed⟩))
  | head step _ ih =>
      obtain ⟨call, recorded, rfl, rfl⟩ := step
      by_cases hit : call.callee ∈ targets
      · exact Or.inl (List.mem_map_of_mem (List.mem_filter.mpr ⟨recorded, decide_eq_true hit⟩))
      · have missed : Leads (missing targets calls) call.caller call.callee :=
          ⟨call, List.mem_filter.mpr ⟨recorded, decide_eq_true hit⟩, rfl, rfl⟩
        rcases ih with here | ⟨middle, between, rest⟩
        · exact Or.inr ⟨call.callee, here, .single missed⟩
        · exact Or.inr ⟨middle, between, .head missed rest⟩

theorem mem_callersReaching_of_reaches (targets : List String) (calls : List MethodCall)
    (caller : String)
    (reaches : ∃ target ∈ targets, Relation.TransGen (Leads calls) caller target) :
    caller ∈ callersReaching targets calls := by
  obtain ⟨target, aimed, chain⟩ := reaches
  fun_induction callersReaching targets calls generalizing caller target with
  | case1 targets calls noHit =>
      rcases hits_or_reaches_hit aimed chain with here | ⟨middle, between, _⟩
      · simp [noHit] at here
      · simp [noHit] at between
  | case2 targets calls hit ih =>
      rcases hits_or_reaches_hit aimed chain with here | ⟨middle, between, rest⟩
      · exact List.mem_append_left _ here
      · exact List.mem_append_right _ (ih caller middle between rest)

/-- The search finds exactly the methods that reach one of its targets. -/
theorem mem_callersReaching_iff (targets : List String) (calls : List MethodCall)
    (caller : String) :
    caller ∈ callersReaching targets calls ↔
      ∃ target ∈ targets, Relation.TransGen (Leads calls) caller target :=
  ⟨reaches_of_mem_callersReaching targets calls caller,
    mem_callersReaching_of_reaches targets calls caller⟩

/-- The transitive callers of a method are the others that reach it. -/
theorem mem_transitiveCallers_iff (calls : List MethodCall) (component : Span)
    (method caller : String) :
    caller ∈ transitiveCallers calls component method ↔
      caller ≠ method ∧ Reaches calls component caller method := by
  rw [transitiveCallers, List.mem_filter, List.mem_eraseDups, mem_callersReaching_iff,
    leads_filter_component, and_comm]
  simp [Reaches]

end StaleRead.MethodCall
