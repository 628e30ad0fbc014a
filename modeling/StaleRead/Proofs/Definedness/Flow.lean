import StaleRead.Proofs.Definedness.Basic
import StaleRead.Proofs.Flow.Closure

/-! # Call graphs step by step

A call graph takes the names of methods only, and it tells the callers of its own methods only.
The strict forms record a call from names that may be unknown, and they close the facts over the
call graph that each component has at the time, if it has one.
-/

namespace StaleRead.Strict

/-- Record that a method of a component calls another. The name of either may be unknown. -/
def addCall (flow : Flow) (component : Span) (caller? callee? : Option String) : Strict Flow :=
  match caller?, callee? with
  | some caller, some callee => pure (flow.addCall ⟨component, caller, callee⟩)
  | _, _ => .error .absentName

/-- The call graph of a component: its calls, if there are any. -/
def callGraph? (flow : Flow) (component : Span) : Option (List MethodCall) :=
  match flow.calls.filter (·.component == component) with
  | [] => none
  | call :: rest => some (call :: rest)

/-- The methods in a call graph. -/
def methods (graph : List MethodCall) : List String :=
  graph.flatMap fun call => [call.caller, call.callee]

/-- The methods that reach one of the methods in a call graph. -/
def callersIn (component : Span) (graph : List MethodCall) (method : String) :
    Strict (List String) :=
  if method ∈ methods graph then pure (MethodCall.transitiveCallers graph component method)
  else .error (.unknownMethod component method)

/-- The methods that a read is to be added to. -/
def callersOf (flow : Flow) (fact : MethodRead) : Strict (List String) := do
  let graph? := callGraph? flow fact.component
  if graph?.isNone || fact.method?.isNone then return []
  let graph ← need graph?
  let method ← need fact.method?
  if method ∉ methods graph then return []
  callersIn fact.component graph method

/-- The calls of one component decide who reaches a method of it. -/
theorem transitiveCallers_filter (calls : List MethodCall) (component : Span) (method : String) :
    MethodCall.transitiveCallers (calls.filter (·.component == component)) component method =
      MethodCall.transitiveCallers calls component method := by
  rw [MethodCall.transitiveCallers, List.filter_filter]
  simp only [Bool.and_self]
  rfl

/-- Nothing reaches a method that is not in the call graph. -/
theorem transitiveCallers_eq_nil {calls : List MethodCall} {component : Span} {method : String}
    (strange : method ∉ methods (calls.filter (·.component == component))) :
    MethodCall.transitiveCallers calls component method = [] := by
  have unhit : MethodCall.hitting [method] (calls.filter (·.component == component)) = [] := by
    refine List.filter_eq_nil_iff.mpr fun call inside hit => strange ?_
    have called : call.callee = method := by simpa using hit
    exact List.mem_flatMap.mpr ⟨call, inside, by simp [called]⟩
  rw [MethodCall.transitiveCallers, MethodCall.callersReaching, if_pos unhit]
  rfl

@[simp] theorem callersOf_eq (flow : Flow) (fact : MethodRead) :
    callersOf flow fact = pure (flow.callersOf fact) := by
  rw [callersOf, Flow.callersOf, callGraph?]
  cases fact.method? with
  | none => simp
  | some method =>
      dsimp only
      by_cases inside : method ∈ methods (flow.calls.filter (·.component == fact.component))
      · have reached := transitiveCallers_filter flow.calls fact.component method
        cases graph : flow.calls.filter (·.component == fact.component) with
        | nil => simp [graph, methods] at inside
        | cons call rest =>
            rw [graph] at inside reached
            simp [inside, callersIn, reached]
      · rw [transitiveCallers_eq_nil inside]
        cases graph : flow.calls.filter (·.component == fact.component) with
        | nil => rfl
        | cons call rest =>
            rw [graph] at inside
            simp [inside]

/-- Add each of some reads to the methods that reach it, counting the new facts. -/
def addAllToCallers (added : Nat) (flow : Flow) : List MethodRead → Strict (Nat × Flow)
  | [] => pure (added, flow)
  | fact :: rest => do
      let callers ← callersOf flow fact
      let (added, flow) := Flow.addToCallers fact added flow callers
      addAllToCallers added flow rest

/-- Add every read to all methods that reach it, and count the new facts. -/
def close (flow : Flow) : Strict (Nat × Flow) :=
  addAllToCallers 0 flow flow.methodReads

/-- What a flow says of callers hangs on its calls, and the reads that are added leave these as
they are. -/
theorem addAllToCallers_eq {start : Flow} (added : Nat) (flow : Flow) (facts : List MethodRead)
    (sameCalls : flow.calls = start.calls) :
    addAllToCallers added flow facts =
      pure (flow.addAllToCallers start.callersOf added facts) := by
  induction facts generalizing added flow with
  | nil => rfl
  | cons fact rest ih =>
      have sameCallers : flow.callersOf fact = start.callersOf fact := by
        rw [Flow.callersOf, Flow.callersOf, sameCalls]
      rw [addAllToCallers, callersOf_eq, pure_bind, sameCallers, Flow.addAllToCallers]
      refine ih _ _ ?_
      rw [Flow.addToCallers_eq, (Flow.addMethodReads_frame ..).2, sameCalls]

@[simp] theorem close_eq (flow : Flow) : close flow = pure flow.close :=
  addAllToCallers_eq 0 flow flow.methodReads rfl

end StaleRead.Strict
