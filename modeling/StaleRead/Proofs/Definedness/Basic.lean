import StaleRead.Finding.Log

/-! # Partial steps

A step of the analysis can want something that is not there: a node, an entry of a table, the
first of some values, a name, a method of a call graph, a wording. The definitions of the analysis
cannot take such a step, as they say in each case what comes of it. Here the steps are partial:
`Strict` computations stop at the first one that is not defined and tell what was missing.
A strict form of a definition has its guards and its steps one by one, and it is defined
everywhere exactly if each step stands behind a guard that admits it.
-/

namespace StaleRead

/-- What a step can want and not find. -/
inductive Fault where
  /-- A value that is not there: an absent node, or an entry that a table does not have. -/
  | absentValue
  /-- The first of no values. -/
  | emptyList
  /-- The name of a method at one end of a call. -/
  | absentName
  /-- A method in the call graph of its component. -/
  | unknownMethod (component : Span) (method : String)
  /-- The wording of a message. -/
  | unknownMessage (message : UnknownMessage)
deriving DecidableEq

/-- A computation that stops where a step is not defined. -/
abbrev Strict := Except Fault

namespace Strict

variable {α β : Type}

/-- The value that is there. -/
def need : Option α → Strict α
  | some value => pure value
  | none => .error .absentValue

/-- The first of some values. -/
def first : List α → Strict α
  | value :: _ => pure value
  | [] => .error .emptyList

@[simp] theorem need_some (value : α) : need (some value) = pure value := rfl

@[simp] theorem first_cons (value : α) (rest : List α) : first (value :: rest) = pure value := rfl

theorem pure_ite (condition : Prop) [Decidable condition] (first second : α) :
    (pure (if condition then first else second) : Strict α) =
      if condition then pure first else pure second :=
  apply_ite pure condition first second

/-- A value is there exactly if it can be had. -/
theorem need_eq_pure {value? : Option α} {value : α} :
    need value? = pure value ↔ value? = some value := by
  cases value? with
  | none => exact ⟨nofun, nofun⟩
  | some other => exact ⟨fun same => congrArg some (Except.ok.inj same),
      fun same => congrArg pure (Option.some.inj same)⟩

/-- The first of some values can be had exactly if there is one. -/
theorem first_eq_pure {values : List α} {value : α} :
    first values = pure value ↔ values.head? = some value := by
  cases values with
  | nil => exact ⟨nofun, nofun⟩
  | cons other rest => exact ⟨fun same => congrArg some (Except.ok.inj same),
      fun same => congrArg pure (Option.some.inj same)⟩

/-- What is collected from each of some values, in their order. -/
def gather (collect : α → Strict (List β)) (values : List α) : Strict (List β) := do
  return (← values.mapM collect).flatten

@[simp] theorem gather_pure (collect : α → List β) (values : List α) :
    gather (fun value => pure (collect value)) values = pure (values.flatMap collect) := by
  rw [gather, List.mapM_pure, pure_bind, List.flatMap_def]

/-- A fold of a step that is defined everywhere is the fold of what the step gives. -/
theorem foldlM_eq {strict : β → α → Strict β} {step : β → α → β}
    (stepped : ∀ state value, strict state value = pure (step state value)) (state : β)
    (values : List α) : values.foldlM strict state = pure (values.foldl step state) := by
  have pureStep : strict = fun state value => pure (step state value) :=
    funext fun state => funext (stepped state)
  rw [pureStep, List.foldlM_pure]

end Strict

end StaleRead
