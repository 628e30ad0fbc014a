import StaleRead.Analysis.Judgement
import StaleRead.FileSystem.Basic
import StaleRead.Language

/-! # Checking sources and files

A linter checks one source after the other under the same conventions. It needs a
grammar for each language, which turns the bytes of a source into its tree, and a parser
for each language that it is asked for, which it makes once and keeps under the name of the
language. A source is checked under a given language or under the one that its file name
selects; a file that cannot be read or that no language supports has no result.

The parser is made before the source is read. So where a text turns out to have no bytes, or
the operating system refuses to look a path up, the parser stays.
-/

namespace StaleRead

/-- The tree of each source in each language. -/
abbrev Grammar := Language → Source → Tree

/-- The tree of a source without any syntax. -/
def Tree.emptyProgram : Tree := ⟨"program", true, none, 0, 0, []⟩

/-- The grammar that knows the trees of some sources and takes all others for empty. -/
def Grammar.ofTrees (known : List ((Language × Source) × Tree)) : Grammar :=
  fun language source => (known.lookup (language, source)).getD Tree.emptyProgram

/-- Why a source or a file cannot be checked. -/
inductive LintError where
  /-- No language has the name. -/
  | unsupportedLanguage (name : String)
  /-- No language supports the file. -/
  | unsupportedFile (file : String)
  /-- The text of the source has no bytes. -/
  | unencodable (error : Text.Utf8.EncodeError)
  /-- The operating system refuses to look the path up. -/
  | refusedPath (path : Path) (refusal : Refusal)
deriving DecidableEq

namespace LintError

/-- The wording of an error. -/
def message : LintError → String
  | unsupportedLanguage name => "Unsupported language: " ++ name
  | unsupportedFile file => "Unsupported file type: " ++ file
  | unencodable error => error.message
  | refusedPath path refusal => refusal.message path

/-- Whether an error says that there is no language to check under. -/
def isUnsupported : LintError → Bool
  | unsupportedLanguage _ | unsupportedFile _ => true
  | unencodable _ | refusedPath _ _ => false

end LintError

/-- The language with a given name, or an error. -/
def Language.require (name : String) : Except LintError Language :=
  match Language.ofName? name with
  | some language => .ok language
  | none => .error (.unsupportedLanguage name)

/-- The conventions to check under, and the parsers made so far: the language that each
parser reads, under the name it was asked for by. -/
structure Linter where
  conventions : Conventions
  parsers : List (String × Language)
deriving DecidableEq

namespace Linter

/-- A linter that has not checked anything. -/
def ofConventions (conventions : Conventions) : Linter := ⟨conventions, []⟩

/-- The file name of a source that was given without one. -/
def defaultFile : String := "<source>.jsx"

/-- The language of the parser for a name: the one made before, or else a new one, which is
kept. There is no parser for a name that no language has. -/
def parser (linter : Linter) (name : String) : Except LintError Language × Linter :=
  match linter.parsers.lookup name with
  | some language => (.ok language, linter)
  | none =>
      match Language.require name with
      | .error error => (.error error, linter)
      | .ok language =>
          (.ok language, { linter with parsers := (name, language) :: linter.parsers })

/-- The findings in a source of a given language. -/
def findings (grammar : Grammar) (linter : Linter) (language : Language) (source : Source)
    (file : String) : List Finding :=
  lint source linter.conventions file (grammar language source)

/-- The name of the language of a source: the one that is given, or else that of the
language that the file name selects. -/
def languageName (file : String) (language? : Option String) : Except LintError String :=
  match language? with
  | some name => .ok name
  | none =>
      match Language.ofPath? (Path.ofText file) with
      | some language => .ok language.name
      | none => .error (.unsupportedFile file)

/-- Check a source. -/
def lintSource (grammar : Grammar) (linter : Linter) (given : GivenSource) (file : String)
    (language? : Option String) : Except LintError (List Finding) × Linter :=
  match languageName file language? with
  | .error error => (.error error, linter)
  | .ok name =>
      match linter.parser name with
      | (.error error, linter) => (.error error, linter)
      | (.ok language, linter) =>
          let result := (given.read.mapError .unencodable).map fun source =>
            linter.findings grammar language source file
          (result, linter)

/-- Check a file whose path can be looked up, if it can be read and some language supports
it. -/
def lintFile (grammar : Grammar) (files : FileSystem) (linter : Linter) (path : Path) :
    Option (List Finding) × Linter :=
  match Language.ofPath? path with
  | none => (none, linter)
  | some language =>
      match linter.parser language.name with
      | (.error _, linter) => (none, linter)
      | (.ok language, linter) =>
          let result := (files.read? path).map fun bytes =>
            linter.findings grammar language ⟨bytes⟩ path.text
          (result, linter)

/-- Check the file at a path on a disk. A path that no language supports is not looked up. -/
def lintPath (grammar : Grammar) (disk : Disk) (linter : Linter) (path : Path) :
    Except LintError (Option (List Finding)) × Linter :=
  let (findings?, next) := linter.lintFile grammar disk.files path
  match Language.ofPath? path, disk.refusal? path with
  | some _, some refusal => (.error (.refusedPath path refusal), next)
  | _, _ => (.ok findings?, next)

end Linter

end StaleRead
