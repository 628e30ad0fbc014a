import StaleRead.Settings.Loading

/-! # What loading adds

Loading a definitions file gives a variable the value of its last definition in the file, unless
the variable exists or loading is switched off (`Environment.offered?`). All other variables stay
as they are (`Environment.get?_loadFile`).
-/

namespace StaleRead

namespace Definition

variable {definitions : List Definition} {name : String}

/-- The value that some definitions give to a name: the last definition of it counts, and may give
none. -/
def lastValue? (definitions : List Definition) (name : String) : Option String :=
  (definitions.reverse.find? (·.name = name)).bind Definition.value?

theorem lastValue?_eq_none (undefined : definitions.any (·.name == name) = false) :
    lastValue? definitions name = none := by
  have missing : definitions.reverse.find? (·.name = name) = none := by
    simpa using undefined
  rw [lastValue?, missing]
  rfl

/-- The first of some definitions counts only if its name is not defined again. -/
theorem lastValue?_cons (definition : Definition) (rest : List Definition) (name : String) :
    lastValue? (definition :: rest) name =
      if definition.name = name ∧ rest.any (·.name == name) = false then definition.value?
      else lastValue? rest name := by
  rw [lastValue?, List.reverse_cons, List.find?_append, lastValue?]
  cases found : rest.reverse.find? (·.name = name) with
  | some other =>
      have again : rest.any (·.name == name) = true := by
        have member := List.mem_of_find?_eq_some found
        have same := List.find?_some found
        simp only [List.mem_reverse, decide_eq_true_eq] at member same
        exact List.any_eq_true.mpr ⟨other, member, beq_iff_eq.mpr same⟩
      simp [again]
  | none =>
      have once : rest.any (·.name == name) = false := by simpa using found
      by_cases same : definition.name = name <;> simp [same, once]

end Definition

namespace Environment

theorem lookup_filter_ne {entries : List (String × String)} {name other : String}
    (different : other ≠ name) :
    (entries.filter (·.1 != name)).lookup other = entries.lookup other := by
  induction entries with
  | nil => rfl
  | cons entry rest ih =>
      obtain ⟨first, value⟩ := entry
      by_cases same : first = name
      · have differs : (other == first) = false := beq_eq_false_iff_ne.mpr (same ▸ different)
        rw [List.filter_cons_of_neg (by simp [same]), List.lookup_cons, differs, ih]
      · rw [List.filter_cons_of_pos (by simp [same]), List.lookup_cons, List.lookup_cons, ih]

@[simp] theorem get?_unset (environment : Environment) (name other : String) :
    (environment.unset name).get? other =
      if other = name then none else environment.get? other := by
  split
  · rename_i same
    refine List.lookup_eq_none_iff.mpr fun entry member => bne_iff_ne.mpr ?_
    rw [same]
    exact (bne_iff_ne.mp (List.mem_filter.mp member).2).symm
  · rename_i different
    exact lookup_filter_ne different

@[simp] theorem get?_set (environment : Environment) (name text other : String) :
    (environment.set name text).get? other =
      if other = name then some text else environment.get? other := by
  split
  · rename_i same
    rw [same, set, get?, List.lookup_cons_self]
  · rename_i different
    have differs : (other == name) = false := beq_eq_false_iff_ne.mpr different
    rw [set, get?, List.lookup_cons, differs]
    exact lookup_filter_ne different

/-- A definition gives its value to its own variable, if that does not exist. -/
theorem get?_addDefinition (environment : Environment) (definition : Definition) (name : String) :
    (environment.addDefinition definition).get? name =
      (environment.get? name).or (if definition.name = name then definition.value? else none) := by
  rw [addDefinition]
  cases definition.value? with
  | none => simp
  | some value =>
      simp only [setIfAbsent]
      by_cases same : definition.name = name
      · subst same
        cases exists? : environment.get? definition.name <;> simp [exists?]
      · cases environment.get? definition.name <;> simp [same, Ne.symm same]

/-- Of some definitions, the last ones of each name give their values to the variables that do not
exist. -/
theorem get?_foldl_addDefinition (environment : Environment) (definitions : List Definition)
    (name : String) :
    ((Definition.lastOfEach definitions).foldl addDefinition environment).get? name =
      (environment.get? name).or (Definition.lastValue? definitions name) := by
  induction definitions generalizing environment with
  | nil => simp [Definition.lastOfEach, Definition.lastValue?]
  | cons definition rest ih =>
      rw [Definition.lastOfEach, Definition.lastValue?_cons]
      by_cases again : rest.any (·.name == definition.name) = true
      · have overruled : ¬ (definition.name = name ∧ rest.any (·.name == name) = false) := by
          rintro ⟨rfl, once⟩
          exact Bool.false_ne_true (once.symm.trans again)
        rw [if_pos again, ih, if_neg overruled]
      · rw [if_neg again, List.foldl_cons, ih, get?_addDefinition]
        by_cases same : definition.name = name
        · subst same
          have once := Bool.eq_false_iff.mpr again
          rw [if_pos rfl, if_pos ⟨rfl, once⟩, Definition.lastValue?_eq_none once, Option.or_none]
        · rw [if_neg same, if_neg (fun both => same both.1), Option.or_none]

/-- The value that a file has for a variable when it is loaded: that of the last definition of the
variable, and none while loading is switched off. -/
def offered? (environment : Environment) (files : FileSystem) (path : Path) (name : String) :
    Option String :=
  if environment.loadingIsOff then none else Definition.lastValue? (files.definitions path) name

/-- Loading a file keeps the variables that exist, and gives the others what the file has for
them. -/
theorem get?_loadFile (environment : Environment) (files : FileSystem) (path : Path)
    (name : String) :
    (environment.loadFile files path).get? name =
      (environment.get? name).or (environment.offered? files path name) := by
  rw [loadFile, load, offered?]
  split
  · rw [Option.or_none]
  · exact get?_foldl_addDefinition environment (files.definitions path) name

end Environment

end StaleRead
