import StaleRead.Command.Arguments
import StaleRead.FileSystem.Listings

/-! # The program

Reads the files that a command needs, runs the command, and prints what it produces,
with markup as it is. The tree of a source file is read from the listing beside it; a
source without a listing counts as empty. The time that a file takes is not measured, and
there is no progress bar.
-/

namespace StaleRead.Program

/-- What is at a place in the real file system, with everything below it. -/
partial def snapshot (place : String) : IO Entry := do
  let target := (← IO.currentDir) / place
  if ← target.isDir then
    let names := (← target.readDir).toList.map (·.fileName)
    return .directory (← names.mapM fun name => do
      return (name, ← snapshot (place ++ "/" ++ name)))
  else
    try
      return .file (← IO.FS.readBinFile target).data.toList
    catch _ =>
      return .unreadable

/-- Add what is at a path, and the directories passed on the way. -/
def load (files : FileSystem) (path : Path) : IO FileSystem := do
  let start ← IO.currentDir
  let mut files := files
  for count in List.range path.names.length do
    let before := { path with names := path.names.take count }
    if ← (start / before.text).isDir then
      files := files.makeDirectory before
  if ← (start / path.text).pathExists then
    let entry ← snapshot path.text
    files := files.alter (fun _ => entry) path
  return files

/-- The variables of the process that settings are read from. -/
def environment : IO Environment := do
  let found ← (Environment.loadingSwitch :: Settings.variableNames).filterMapM fun name => do
    return (← IO.getEnv name).map (name, ·)
  return Environment.ofList found

/-- The encoding of the locale. -/
def encoding : IO String := do
  let locale := (← IO.getEnv "LC_ALL").or (← IO.getEnv "LANG")
  return Text.Glyph.encodingName (locale.bind Text.Glyph.localeEncoding?) none

/-- The paths that a command is given. -/
def given : Command → List Path
  | .check request => Check.givenPaths request
  | _ => []

/-- The source files that a command checks. -/
def sources (surroundings : Surroundings) : Command → List Path
  | .check request => Check.sourceFiles surroundings request
  | _ => []

/-- Run a command on the real files. -/
def run (command : Command) : IO UInt32 := do
  let start := Path.ofText (← IO.currentDir).toString
  let mut files := FileSystem.ofWorkingDirectory start.names
  for path in Definition.defaultFile :: given command do
    files ← load files path
    files ← load files path.listing
  let bare : Surroundings :=
    ⟨files, ← environment, Grammar.ofTrees [], fun _ => 0, false,
      Text.Glyph.isUtf8 (← encoding)⟩
  let outcome := command.run
    { bare with grammar := files.listedGrammar (sources bare command) }
  for output in outcome.outputs do
    for line in output.lines do
      IO.println line
  return UInt32.ofNat outcome.status

end StaleRead.Program

/-- Run the command that the command line asks for. -/
def main (words : List String) : IO UInt32 := do
  match StaleRead.Command.ofWords words with
  | some command => StaleRead.Program.run command
  | none =>
      IO.eprintln StaleRead.Command.usage
      return 2
