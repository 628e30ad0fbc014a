import StaleRead.Command.Output
import StaleRead.FileSystem.SourceFiles
import StaleRead.Linter
import StaleRead.Settings.Loading
import StaleRead.Text.Json

/-! # The check command

The command refuses an unknown format and paths that do not exist. Otherwise it finds
the source files below the given paths, checks each of them or skips it, and writes
either one JSON array with all findings or a table for each file with findings and a
summary. On a terminal a progress bar goes with the tables, unless it is switched off. The
status is one if the command refused or found something, and zero otherwise.

A path leads somewhere or nowhere: that the operating system may refuse to look it up, as it
may on a `Disk`, is left out here.
-/

namespace StaleRead

/-- What the check command is asked to do. -/
structure CheckRequest where
  given : List String
  format : String
  includeVendored : Bool
  verbose : Bool
  noProgress : Bool
deriving DecidableEq

/-- What a command runs on: the files, the environment, the grammars, the time each file
takes in tenths of a millisecond, and whether the output is a terminal and has UTF-8. -/
structure Surroundings where
  files : FileSystem
  environment : Environment
  grammar : Grammar
  tenths : Path → Nat
  terminal : Bool
  utf8 : Bool

/-- A file with its findings, or without them if it was skipped. -/
structure FileResult where
  path : Path
  findings? : Option (List Finding)
deriving DecidableEq

namespace Linter

/-- Check some files one after the other. -/
def lintFiles (grammar : Grammar) (files : FileSystem) (linter : Linter) :
    List Path → List FileResult
  | [] => []
  | path :: paths =>
      let (findings?, linter) := linter.lintFile grammar files path
      ⟨path, findings?⟩ :: lintFiles grammar files linter paths

end Linter

namespace Check

/-- The formats of the result. -/
def formats : List String := ["text", "json"]

/-- The settings for a run. -/
def settings (surroundings : Surroundings) : Settings :=
  Settings.inDirectory surroundings.files surroundings.environment

/-- The findings of all files that were checked, in order. -/
def allFindings (results : List FileResult) : List Finding :=
  results.flatMap fun result => result.findings?.getD []

/-- The files that were checked. -/
def checked (results : List FileResult) : List FileResult :=
  results.filter (·.findings?.isSome)

/-- The files that were skipped. -/
def skipped (results : List FileResult) : List FileResult :=
  results.filter (·.findings?.isNone)

/-- The files with findings. -/
def failing (results : List FileResult) : List FileResult :=
  results.filter fun result => !(result.findings?.getD []).isEmpty

/-- A time in milliseconds with one place. -/
def milliseconds (tenths : Nat) : String :=
  toString (tenths / 10) ++ "." ++ toString (tenths % 10) ++ "ms"

/-- Whether a progress bar is shown: with the tables on a terminal, unless it is switched
off. -/
def showsBar (surroundings : Surroundings) (request : CheckRequest) : Bool :=
  !request.noProgress && request.format == "text" && surroundings.terminal

/-- The progress bar over some files, if it is shown. -/
def bar (surroundings : Surroundings) (request : CheckRequest) (files : List Path) :
    List Output :=
  if showsBar surroundings request then
    [.progressBar "[cyan]Checking components..." files.length]
  else []

/-- What is said about one file if details are wanted. -/
def progress (surroundings : Surroundings) (console : Console) (result : FileResult) :
    List Output :=
  let name := Text.Markup.escape result.path.text
  match result.findings? with
  | none => console.detail ("skipped (unreadable): " ++ name)
  | some findings =>
      console.detail (name ++ ": " ++ toString findings.length ++ " violation(s) in " ++
        milliseconds (surroundings.tenths result.path))

/-- The row of a finding. -/
def row (finding : Finding) : List String :=
  [toString finding.line, toString finding.column, Text.Markup.escape finding.text,
    finding.message.text]

/-- The table of a file with findings. -/
def table (surroundings : Surroundings) (result : FileResult) : Output :=
  let title :=
    Path.shorten surroundings.files.workingDirectory ⟨.relative, []⟩ result.path.text
  .table (Text.Markup.escape title) ["Line", "Col", "Source", "Message"]
    ((result.findings?.getD []).map row)

/-- The summary behind the tables. -/
def summary (console : Console) (results : List FileResult) : List Output :=
  let total := (allFindings results).length
  let counts :=
    [console.say "\n[bold yellow]Summary:[/bold yellow]",
      console.say ("  Files checked: " ++ toString (checked results).length)]
  let skips :=
    if (skipped results).isEmpty then []
    else [console.say ("  Files skipped: " ++ toString (skipped results).length)]
  let verdict :=
    if total = 0 then
      "[bold green]✓ No state reads inside setState arguments found![/bold green]"
    else
      "  [bold red]✗ " ++ toString total ++ " violation(s)[/bold red] in " ++
        toString (failing results).length ++ " file(s) [dim](" ++ ruleName ++ ")[/dim]"
  counts ++ skips ++ [console.say verdict]

/-- The fields of a finding. -/
def record (finding : Finding) : Text.Json.Record :=
  [("file_path", .text finding.file), ("line", .number finding.line),
    ("column", .number finding.column), ("end_line", .number finding.endLine),
    ("end_column", .number finding.endColumn), ("message_id", .text finding.message.id),
    ("message", .text finding.message.text), ("source", .text finding.text),
    ("rule", .text ruleName)]

/-- The result in one of the formats. -/
def report (surroundings : Surroundings) (console : Console) (format : String)
    (results : List FileResult) : List Output :=
  if format = "json" then [.line (Text.Json.render ((allFindings results).map record))]
  else (failing results).map (table surroundings) ++ summary console results

/-- What is wrong with a request: an unknown format, else the given paths that do not
exist. -/
def refusals (surroundings : Surroundings) (request : CheckRequest) (given : List Path) :
    List String :=
  if request.format ∉ formats then
    ["Unknown format '" ++ request.format ++ "' (expected one of: " ++
      ", ".intercalate formats ++ ")"]
  else
    (surroundings.files.absent given).map fun path => "Path does not exist: " ++ path.text

/-- The paths to search: those given, or else the working directory. -/
def givenPaths (request : CheckRequest) : List Path :=
  (if request.given.isEmpty then ["."] else request.given).map Path.ofText

/-- The source files below the given paths. -/
def sourceFiles (surroundings : Surroundings) (request : CheckRequest) : List Path :=
  surroundings.files.sourceFiles (givenPaths request) (settings surroundings).excluded
    request.includeVendored

/-- The results for the source files below the given paths. -/
def results (surroundings : Surroundings) (request : CheckRequest) : List FileResult :=
  (Linter.ofConventions (settings surroundings).conventions).lintFiles surroundings.grammar
    surroundings.files (sourceFiles surroundings request)

/-- Run the check command. -/
def run (surroundings : Surroundings) (request : CheckRequest) : Outcome :=
  let console : Console := ⟨surroundings.utf8, request.verbose⟩
  match refusals surroundings request (givenPaths request) with
  | [] =>
      let files := sourceFiles surroundings request
      let results := results surroundings request
      { status := if (allFindings results).isEmpty then 0 else 1
        outputs :=
          console.detail ("Discovered " ++ toString files.length ++ " file(s)") ++
            bar surroundings request files ++
            results.flatMap (progress surroundings console) ++
            report surroundings console request.format results }
  | refusals => ⟨1, refusals.map console.error⟩

end Check

end StaleRead
