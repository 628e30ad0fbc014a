import StaleRead.Flow.Basic

/-! # Closing the flow over calls

A method that calls a reading method reads the state too, and so does its caller.
`Flow.close` takes the reads as they are and adds each of them to every method that
reaches it through calls of its component. The search for these callers uses up the
calls that it follows, so it ends on any call graph, also one with cycles.
-/

namespace StaleRead

namespace MethodCall

/-- The calls of one of the targets. -/
def hitting (targets : List String) (calls : List MethodCall) : List MethodCall :=
  calls.filter (·.callee ∈ targets)

/-- The calls of none of the targets. -/
def missing (targets : List String) (calls : List MethodCall) : List MethodCall :=
  calls.filter (·.callee ∉ targets)

theorem length_missing_lt {targets : List String} {calls : List MethodCall}
    (hit : hitting targets calls ≠ []) : (missing targets calls).length < calls.length := by
  obtain ⟨call, member⟩ := List.exists_mem_of_ne_nil _ hit
  have found := List.mem_filter.mp member
  exact List.length_filter_lt_length_iff_exists.mpr ⟨call, found.1, by simpa using found.2⟩

/-- The callers that reach one of the targets through one or more of the calls. Calls
that hit a target are followed and used up, and their callers are the next targets. -/
def callersReaching (targets : List String) (calls : List MethodCall) : List String :=
  if hitting targets calls = [] then []
  else
    (hitting targets calls).map caller ++
      callersReaching ((hitting targets calls).map caller) (missing targets calls)
termination_by calls.length
decreasing_by
  rename_i hit
  exact length_missing_lt hit

/-- The other methods of a component that reach a method through calls, each once. -/
def transitiveCallers (calls : List MethodCall) (component : Span) (method : String) :
    List String :=
  ((callersReaching [method] (calls.filter (·.component == component))).eraseDups).filter
    (· != method)

end MethodCall

namespace Flow

/-- The methods that a read is to be added to: those that reach its method. -/
def callersOf (flow : Flow) (fact : MethodRead) : List String :=
  match fact.method? with
  | none => []
  | some method => MethodCall.transitiveCallers flow.calls fact.component method

/-- Add a read to some other methods of its component, counting the new facts. -/
def addToCallers (fact : MethodRead) (added : Nat) (flow : Flow) : List String → Nat × Flow
  | [] => (added, flow)
  | caller :: callers =>
      let (isNew, flow) := flow.addMethodRead { fact with method? := some caller }
      addToCallers fact (if isNew then added + 1 else added) flow callers

/-- Add each of some reads to the methods listed for it, counting the new facts. -/
def addAllToCallers (callersOf : MethodRead → List String) (added : Nat) (flow : Flow) :
    List MethodRead → Nat × Flow
  | [] => (added, flow)
  | fact :: rest =>
      let (added, flow) := addToCallers fact added flow (callersOf fact)
      addAllToCallers callersOf added flow rest

/-- Add every read that is there to the methods listed for it. -/
def closeVia (callersOf : MethodRead → List String) (flow : Flow) : Nat × Flow :=
  addAllToCallers callersOf 0 flow flow.methodReads

/-- Add every read to all methods that reach it, and count the new facts. -/
def close (flow : Flow) : Nat × Flow :=
  flow.closeVia flow.callersOf

end Flow

end StaleRead
