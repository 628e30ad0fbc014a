import StaleRead.Component
import StaleRead.Settings.Environment

/-! # Settings

The settings are read from the environment. A variable that is absent or empty leaves
its default, and the default list of bases also stands in for a list without names.
Names that are excluded from discovery are added to the built-in ones.
-/

namespace StaleRead

/-- What marks a component, and which names are passed over when files are looked for. -/
structure Settings where
  conventions : Conventions
  excluded : List String
deriving DecidableEq

namespace Settings

/-- The names of directories that hold the code of others. -/
def vendored : List String :=
  ["node_modules", "bower_components", "vendor", "third_party"]

/-- The names that are always excluded: code of others, build output, and what belongs
to tools. -/
def alwaysExcluded : List String :=
  vendored ++
    ["dist", "build", "coverage", "out", ".next", ".nuxt", ".git", ".hg", ".svn", ".cache",
      "venv", ".venv", "__pycache__"]

/-- The conventions that hold without settings. -/
def defaultConventions : Conventions where
  pragma := "React"
  factory := "createReactClass"
  bases := ["Component", "PureComponent"]

/-- The text of a variable, unless it is absent or empty. -/
def nonempty (environment : Environment) (name default : String) : String :=
  match environment.get? name with
  | none => default
  | some text => if text.isEmpty then default else text

/-- The names listed in a variable. -/
def listed (environment : Environment) (name : String) : List String :=
  Text.Blank.commaList (environment.get? name)

/-- The variable with the namespace of components. -/
def pragmaVariable : String := "SETSTATE_GUARD_PRAGMA"

/-- The variable with the factory of object components. -/
def factoryVariable : String := "SETSTATE_GUARD_CREATE_CLASS"

/-- The variable with the bases of class components. -/
def basesVariable : String := "SETSTATE_GUARD_COMPONENT_BASES"

/-- The variable with the names to exclude. -/
def excludedVariable : String := "SETSTATE_GUARD_EXCLUDED_DIRS"

/-- The variables that settings are read from. -/
def variableNames : List String :=
  [pragmaVariable, factoryVariable, basesVariable, excludedVariable]

/-- The bases that an environment lists, or else the default ones. -/
def basesOf (environment : Environment) : List String :=
  match listed environment basesVariable with
  | [] => defaultConventions.bases
  | names => names

/-- The settings that an environment gives. -/
def ofEnvironment (environment : Environment) : Settings where
  conventions :=
    { pragma := nonempty environment pragmaVariable defaultConventions.pragma
      factory := nonempty environment factoryVariable defaultConventions.factory
      bases := basesOf environment }
  excluded := alwaysExcluded ++ listed environment excludedVariable

end Settings

end StaleRead
