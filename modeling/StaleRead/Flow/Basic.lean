import StaleRead.Tree.Basic

/-! # How the state flows through a file

The state flows into the methods that read it and into the bindings that hold what was
read, and from a method to its callers. Three kinds of facts say so: a method of a
component reads the state, a binding of a scope holds the state, and a method calls
another one of its component. Each fact is recorded once, in the order in which it was
found: the keys of the reads tell what was recorded before, and an index finds the reads
of a method by name. A method without a known name is recorded but cannot be looked up.
-/

namespace StaleRead

/-- A method of a component reads the state at a node, itself or through calls. -/
structure MethodRead where
  component : Span
  method? : Option String
  read : Span
deriving DecidableEq

/-- A binding of a scope holds the state that was read at a node. -/
structure BindingRead where
  scope : Span
  name? : Option String
  read : Span
deriving DecidableEq

/-- A method of a component calls a function or method by name. -/
structure MethodCall where
  component : Span
  caller : String
  callee : String
deriving DecidableEq

/-- What tells one recorded read from another: the component or scope, the name of the
method or binding, and the node. -/
abbrev ReadKey := Span × Option String × Span

/-- The key of a method's read. -/
def MethodRead.key (fact : MethodRead) : ReadKey :=
  (fact.component, fact.method?, fact.read)

/-- The key of a binding's read. -/
def BindingRead.key (fact : BindingRead) : ReadKey :=
  (fact.scope, fact.name?, fact.read)

/-- The reads of each method, filed under the component and the name. -/
abbrev MethodIndex := List ((Span × String) × List MethodRead)

namespace MethodIndex

/-- File a read behind the others of its method. -/
def file (method : Span × String) (fact : MethodRead) : MethodIndex → MethodIndex
  | [] => [(method, [fact])]
  | entry :: rest =>
      if entry.1 = method then (method, entry.2 ++ [fact]) :: rest
      else entry :: file method fact rest

/-- The reads of a method. -/
def find (method : Span × String) : MethodIndex → List MethodRead
  | [] => []
  | entry :: rest => if entry.1 = method then entry.2 else find method rest

/-- Filing a read adds it to the reads of its own method and to no other's. -/
theorem find_file (index : MethodIndex) (method other : Span × String) (fact : MethodRead) :
    find other (file method fact index) =
      if other = method then find other index ++ [fact] else find other index := by
  induction index with
  | nil =>
      by_cases same : other = method
      · simp [file, find, same]
      · simp [file, find, same, Ne.symm same]
  | cons entry rest ih =>
      by_cases here : entry.1 = method <;> by_cases same : other = method <;>
        by_cases first : entry.1 = other <;> simp_all [file, find]

end MethodIndex

/-- The facts about the flow of the state in one file. -/
structure Flow where
  methodReads : List MethodRead
  bindingReads : List BindingRead
  calls : List MethodCall
  byMethod : MethodIndex
  methodKeys : List ReadKey
  bindingKeys : List ReadKey

namespace Flow

/-- No facts. -/
def empty : Flow := ⟨[], [], [], [], [], []⟩

/-- The place of a read in the index; a method without a known name has none. -/
def indexed (index : MethodIndex) (fact : MethodRead) : MethodIndex :=
  match fact.method? with
  | none => index
  | some method => MethodIndex.file (fact.component, method) fact index

/-- Record that a method reads the state, and tell whether that was new. -/
def addMethodRead (flow : Flow) (fact : MethodRead) : Bool × Flow :=
  if fact.key ∈ flow.methodKeys then (false, flow)
  else
    (true, { flow with
      methodReads := flow.methodReads ++ [fact]
      byMethod := indexed flow.byMethod fact
      methodKeys := fact.key :: flow.methodKeys })

/-- Record that a binding holds the state, and tell whether that was new. -/
def addBindingRead (flow : Flow) (fact : BindingRead) : Bool × Flow :=
  if fact.key ∈ flow.bindingKeys then (false, flow)
  else
    (true, { flow with
      bindingReads := flow.bindingReads ++ [fact]
      bindingKeys := fact.key :: flow.bindingKeys })

/-- Record that a method calls another. -/
def addCall (flow : Flow) (call : MethodCall) : Flow :=
  if call ∈ flow.calls then flow
  else { flow with calls := flow.calls ++ [call] }

/-- The reads of a method, in the order in which they were recorded. -/
def readsOfMethod (flow : Flow) (component : Span) (method? : Option String) :
    List MethodRead :=
  match method? with
  | none => []
  | some method => MethodIndex.find (component, method) flow.byMethod

/-- The reads that a binding holds, in the order in which they were recorded. -/
def readsOfBinding (flow : Flow) (scope : Span) (name? : Option String) : List BindingRead :=
  flow.bindingReads.filter fun fact => fact.scope == scope && fact.name? == name?

end Flow

end StaleRead
