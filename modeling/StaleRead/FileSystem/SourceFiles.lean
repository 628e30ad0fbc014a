import StaleRead.FileSystem.Basic
import StaleRead.Language
import StaleRead.Settings.Basic

/-! # Finding source files

A file that is given counts if a language supports it, whatever is excluded. From a
directory that is given, every entry below it counts whose name ends in one of the
extensions and whose way from the directory has no excluded name. The result has each
path once, in the order of paths.
-/

namespace StaleRead

namespace Discovery

/-- The names that are excluded, which leaves out the directories with the code of
others if these are to be searched too. -/
def effectiveExclusions (excluded : List String) (includeVendored : Bool) : List String :=
  if includeVendored then excluded.filter (· ∉ Settings.vendored) else excluded

/-- Whether a name ends in one of the extensions, letter by letter. -/
def hasExtension (name : String) : Bool :=
  Language.extensions.any fun (extension, _) => extension.toList.isSuffixOf name.toList

/-- Whether an entry below a given directory counts. -/
def counts (excluded : List String) (names : List String) : Bool :=
  names.getLast?.any hasExtension && !names.any (· ∈ excluded)

/-- The paths found from one given path. -/
def fromPath (files : FileSystem) (excluded : List String) (given : Path) : List Path :=
  match files.find? given with
  | some (.directory contents) =>
      ((Entry.insideAll contents).filter (counts excluded)).map given.append
  | some _ => if Language.supports given then [given] else []
  | none => []

end Discovery

namespace FileSystem

/-- The source files found from some given paths. -/
def sourceFiles (files : FileSystem) (given : List Path) (excluded : List String)
    (includeVendored : Bool) : List Path :=
  let excluded := Discovery.effectiveExclusions excluded includeVendored
  sortDistinct Path.le (given.flatMap (Discovery.fromPath files excluded))

/-- The given paths that lead nowhere, in the order given. -/
def absent (files : FileSystem) (given : List Path) : List Path :=
  given.filter (!files.exists? ·)

end FileSystem

end StaleRead
