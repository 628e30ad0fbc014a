import StaleRead.Command.Check

/-! # Commands

Besides the check there are two commands that only inform: one lists the supported
extensions with their languages, the other gives the version.
-/

namespace StaleRead

/-- A command with what it is asked to do. -/
inductive Command where
  | check (request : CheckRequest)
  | languages
  | version
deriving DecidableEq

namespace Command

/-- The name and version of the program. -/
def versionLine : String := "setstate-guard 1.0.0"

/-- The table of the supported extensions. -/
def languageTable : Output :=
  .table "Supported Languages" ["Extension", "Grammar"]
    (Language.extensions.map fun (extension, language) => [extension, language.name])

/-- Run a command. -/
def run (surroundings : Surroundings) : Command → Outcome
  | check request => Check.run surroundings request
  | languages => ⟨0, [languageTable]⟩
  | version => ⟨0, [.line versionLine]⟩

end Command

end StaleRead
