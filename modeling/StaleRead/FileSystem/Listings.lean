import StaleRead.FileSystem.Basic
import StaleRead.Linter
import StaleRead.Tree.Listing

/-! # Listings beside source files

The tree of a source file can stand in a file beside it, as a listing under the same
name with `.tree` added.
-/

namespace StaleRead

/-- The path of the listing that belongs to a source file. -/
def Path.listing (path : Path) : Path :=
  Path.ofText (path.text ++ ".tree")

namespace FileSystem

/-- The tree of a source file that has a listing, with its language and bytes. -/
def listedTree? (files : FileSystem) (path : Path) : Option ((Language × Source) × Tree) := do
  let language ← Language.ofPath? path
  let bytes ← files.read? path
  let listing ← files.read? path.listing
  let tree ← Tree.ofListing? (Text.Utf8.decode listing)
  some ((language, ⟨bytes⟩), tree)

/-- The grammar that reads the listings beside some source files. -/
def listedGrammar (files : FileSystem) (paths : List Path) : Grammar :=
  Grammar.ofTrees (paths.filterMap files.listedTree?)

end FileSystem

end StaleRead
