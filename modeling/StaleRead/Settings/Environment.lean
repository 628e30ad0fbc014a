/-! # The environment

The environment gives texts to names. A variable that exists may be empty, which is
not the same as not existing.
-/

namespace StaleRead

/-- The variables of a process, each name at most once. -/
structure Environment where
  entries : List (String × String)
deriving DecidableEq

namespace Environment

/-- No variables. -/
def empty : Environment := ⟨[]⟩

/-- The text of a variable. -/
def get? (environment : Environment) (name : String) : Option String :=
  environment.entries.lookup name

/-- Remove a variable. -/
def unset (environment : Environment) (name : String) : Environment :=
  ⟨environment.entries.filter (·.1 != name)⟩

/-- Give a variable a text, whether it existed or not. -/
def set (environment : Environment) (name text : String) : Environment :=
  ⟨(name, text) :: (environment.unset name).entries⟩

/-- Give a variable a text unless it exists. -/
def setIfAbsent (environment : Environment) (name text : String) : Environment :=
  match environment.get? name with
  | some _ => environment
  | none => environment.set name text

/-- The environment with the given variables; the last of repeated names counts. -/
def ofList (entries : List (String × String)) : Environment :=
  entries.foldl (fun environment (name, text) => environment.set name text) empty

end Environment

end StaleRead
