import StaleRead.FileSystem.Basic
import StaleRead.Settings.Basic
import StaleRead.Settings.Definitions
import StaleRead.Text.LetterCase.Basic
import StaleRead.Text.Utf8

/-! # Loading definitions

Loading a definitions file gives its values to the variables that do not exist, and leaves
those that exist as they are, even if they are empty. One variable can switch this off; it is
looked at each time, so it has its effect from the moment it exists.
-/

namespace StaleRead

/-- The file that is loaded unless another one is named. -/
def Definition.defaultFile : Path := Path.ofText ".env"

/-- The definitions in a file; where there is no file to read there are none. -/
def FileSystem.definitions (files : FileSystem) (path : Path) : List Definition :=
  match files.read? path with
  | none => []
  | some bytes => Definition.ofText (Text.Utf8.decode bytes)

namespace Environment

/-- The variable that can switch loading off. -/
def loadingSwitch : String := "PYTHON_DOTENV_DISABLED"

/-- The texts of the switch that mean off, in whichever letter case. -/
def offWords : List String := ["1", "true", "t", "yes", "y"]

/-- Whether loading is switched off. -/
def loadingIsOff (environment : Environment) : Bool :=
  (environment.get? loadingSwitch).any fun text => Text.LetterCase.foldToAscii text ∈ offWords

/-- Give the value of a definition, if it has one, to its variable, if that does not exist. -/
def addDefinition (environment : Environment) (definition : Definition) : Environment :=
  match definition.value? with
  | none => environment
  | some value => environment.setIfAbsent definition.name value

/-- Load some definitions, unless this is switched off. -/
def load (environment : Environment) (definitions : List Definition) : Environment :=
  if environment.loadingIsOff then environment
  else (Definition.lastOfEach definitions).foldl addDefinition environment

/-- Load the definitions in a file. -/
def loadFile (environment : Environment) (files : FileSystem) (path : Path) : Environment :=
  environment.load (files.definitions path)

end Environment

/-- The settings in a working directory: the environment with the default file loaded. -/
def Settings.inDirectory (files : FileSystem) (environment : Environment) : Settings :=
  Settings.ofEnvironment (environment.loadFile files Definition.defaultFile)

end StaleRead
