import StaleRead.Path
import StaleRead.Text.Utf8

/-! # File systems

A file system is a tree of directories and files with a working directory. A path is
looked up step by step: a name leads from a directory to one of its entries, `..` leads
back to the directory before, and every step must start at a directory.

A disk is a file system behind an operating system, which may refuse to look a path up: a
name on the way can be too long, for one.
-/

namespace StaleRead

/-- A file with its bytes, a file that cannot be read, or a directory with its named
entries. -/
inductive Entry where
  | file (bytes : List UInt8)
  | unreadable
  | directory (contents : List (String × Entry))

namespace Entry

/-- The entry that some names lead to. The directories passed on the way, the latest
first, are where `..` leads back to; at the root it leads nowhere. -/
def follow : List Entry → Entry → List String → Option Entry
  | _, entry, [] => some entry
  | _, .file _, _ :: _ => none
  | _, .unreadable, _ :: _ => none
  | passed, .directory contents, name :: names =>
      if name = ".." then
        match passed with
        | [] => follow [] (.directory contents) names
        | before :: passed => follow passed before names
      else
        match contents.lookup name with
        | none => none
        | some entry => follow (.directory contents :: passed) entry names

mutual

/-- The names that lead to each entry inside an entry. -/
def inside : Entry → List (List String)
  | .file _ => []
  | .unreadable => []
  | .directory contents => insideAll contents

/-- The names that lead to some named entries and to each entry inside them. -/
def insideAll : List (String × Entry) → List (List String)
  | [] => []
  | (name, entry) :: rest => [name] :: ((inside entry).map (name :: ·) ++ insideAll rest)

end

/-- Replace the named one of some entries, or add it behind them. -/
def replace (name : String) (change : Option Entry → Entry) :
    List (String × Entry) → List (String × Entry)
  | [] => [(name, change none)]
  | (other, entry) :: rest =>
      if other = name then (other, change (some entry)) :: rest
      else (other, entry) :: replace name change rest

/-- Replace the entry that some names lead to, making the directories on the way. -/
def alter (change : Option Entry → Entry) : List String → Option Entry → Entry
  | [], entry? => change entry?
  | name :: names, some (.directory contents) =>
      .directory (replace name (alter change names) contents)
  | name :: names, _ => .directory (replace name (alter change names) [])

/-- Remove the entry that some names lead to, if they lead to one. -/
def without : List String → Entry → Entry
  | name :: names, .directory contents =>
      if names.isEmpty then
        .directory (contents.filter fun (other, _) => other != name)
      else
        .directory (contents.map fun (other, entry) =>
          if other = name then (other, without names entry) else (other, entry))
  | _, entry => entry

/-- A directory where there is none. -/
def asDirectory : Option Entry → Entry
  | some (.directory contents) => .directory contents
  | _ => .directory []

end Entry

/-- A tree of directories with the names that lead to the working directory. -/
structure FileSystem where
  root : Entry
  workingDirectory : List String

namespace FileSystem

/-- The entry that a path leads to. -/
def find? (files : FileSystem) (path : Path) : Option Entry :=
  let start := if path.anchor = .relative then files.workingDirectory else []
  Entry.follow [] files.root (start ++ path.names)

/-- The bytes of the file that a path leads to, if it can be read. -/
def read? (files : FileSystem) (path : Path) : Option (List UInt8) :=
  match files.find? path with
  | some (.file bytes) => some bytes
  | _ => none

/-- Whether a path leads anywhere. -/
def exists? (files : FileSystem) (path : Path) : Bool :=
  (files.find? path).isSome

/-- A file system that is empty except for the working directory. -/
def ofWorkingDirectory (names : List String) : FileSystem :=
  ⟨Entry.alter Entry.asDirectory names none, names⟩

/-- Replace the entry that a path leads to, making the directories on the way. -/
def alter (files : FileSystem) (change : Option Entry → Entry) (path : Path) : FileSystem :=
  let names := path.resolve files.workingDirectory
  { files with root := Entry.alter change names (some files.root) }

/-- Make a directory and those on the way to it, also the ones that `..` leaves again, unless
they are there. -/
def makeDirectory (files : FileSystem) (path : Path) : FileSystem :=
  (List.range (path.names.length + 1)).foldl
    (fun files count => files.alter Entry.asDirectory { path with names := path.names.take count })
    files

/-- Write a file, making the directories on the way to it. -/
def write (files : FileSystem) (path : Path) (bytes : List UInt8) : FileSystem :=
  (files.makeDirectory { path with names := path.names.dropLast }).alter (fun _ => .file bytes) path

/-- Remove the entry that a path leads to. -/
def remove (files : FileSystem) (path : Path) : FileSystem :=
  { files with root := files.root.without (path.resolve files.workingDirectory) }

end FileSystem

/-- Why an operating system refuses to look a path up: the number of the error and its
wording. That the path leads nowhere is no such error. -/
structure Refusal where
  number : Nat
  wording : String
deriving DecidableEq

namespace Refusal

/-- The refusal of a path that is too long, or of a name on it that is. -/
def tooLong : Refusal := ⟨36, "File name too long"⟩

/-- The wording of a refusal for a path. -/
def message (refusal : Refusal) (path : Path) : String :=
  "[Errno " ++ toString refusal.number ++ "] " ++ refusal.wording ++ ": '" ++ path.text ++ "'"

end Refusal

/-- A file system with the paths that the operating system refuses to look up. -/
structure Disk where
  files : FileSystem
  refusal? : Path → Option Refusal

namespace Disk

/-- The most bytes that the text of a path may have. -/
def pathLimit : Nat := 4095

/-- The most bytes that a name may have. -/
def nameLimit : Nat := 255

/-- Whether a path is too long, or comes to a directory from where a name leads on that is. -/
def isTooLong (files : FileSystem) (path : Path) : Bool :=
  pathLimit < (Text.Utf8.encode path.text).length ||
    (List.range path.names.length).any fun count =>
      match files.find? { path with names := path.names.take count }, path.names[count]? with
      | some (.directory _), some name => nameLimit < (Text.Utf8.encode name).length
      | _, _ => false

/-- A disk on which every directory may be searched. -/
def ofFiles (files : FileSystem) : Disk where
  files
  refusal? path := if isTooLong files path then some .tooLong else none

end Disk

end StaleRead
