import StaleRead.Settings.Loading

/-! # Sessions

A session is the environment and the files of a running process together with the
settings objects that were made in it. Making an object loads a definitions file and
nothing else: the values of every object are read from the environment at the time they
are asked for. One shared object is made when it is first asked for, and kept until it is
dropped.
-/

namespace StaleRead

/-- A settings object, known by the number of objects made before it. -/
structure SettingsObject where
  number : Nat
deriving DecidableEq

/-- The environment, the files, and the settings objects of a process. -/
structure Session where
  environment : Environment
  files : FileSystem
  made : Nat
  shared? : Option SettingsObject

namespace Session

/-- A session before any settings object was made. -/
def start (environment : Environment) (files : FileSystem) : Session :=
  ⟨environment, files, 0, none⟩

/-- Give a variable a text. -/
def setVariable (session : Session) (name text : String) : Session :=
  { session with environment := session.environment.set name text }

/-- Remove a variable. -/
def unsetVariable (session : Session) (name : String) : Session :=
  { session with environment := session.environment.unset name }

/-- Write a file. -/
def writeFile (session : Session) (path : Path) (text : String) : Session :=
  { session with files := session.files.write path (Text.Utf8.encode text) }

/-- Remove a file. -/
def removeFile (session : Session) (path : Path) : Session :=
  { session with files := session.files.remove path }

/-- Make a settings object, loading a definitions file. -/
def make (session : Session) (path : Path) : SettingsObject × Session :=
  (⟨session.made⟩, { session with
    environment := session.environment.loadFile session.files path
    made := session.made + 1 })

/-- The shared settings object, made from the default file if there is none. -/
def shared (session : Session) : SettingsObject × Session :=
  match session.shared? with
  | some object => (object, session)
  | none =>
      let (object, session) := session.make Definition.defaultFile
      (object, { session with shared? := some object })

/-- Drop the shared settings object. -/
def drop (session : Session) : Session :=
  { session with shared? := none }

/-- The values of a settings object at this time, whichever file it was made from. -/
def settingsOf (session : Session) (_object : SettingsObject) : Settings :=
  Settings.ofEnvironment session.environment

end Session

end StaleRead
