import StaleRead.Sorting
import StaleRead.Text.Blank

/-! # Paths

A path is the names along it, and the slashes it starts with if it is absolute. Two
leading slashes are kept apart from one; otherwise repeated and trailing slashes and
the name `.` mean nothing, while `..` stays. Paths are ordered by their parts, where
the leading slashes of an absolute path are its first part.
-/

namespace StaleRead

/-- How a path starts. -/
inductive Anchor where
  /-- The path starts at the working directory. -/
  | relative
  /-- The path starts with one slash, or with three or more. -/
  | slash
  /-- The path starts with two slashes. -/
  | doubleSlash
deriving DecidableEq

namespace Anchor

/-- The slashes of an anchor. -/
def text : Anchor → String
  | relative => ""
  | slash => "/"
  | doubleSlash => "//"

/-- The anchor of a text, by the number of its leading slashes. -/
def ofChars (chars : List Char) : Anchor :=
  match (chars.takeWhile (· == '/')).length with
  | 0 => relative
  | 2 => doubleSlash
  | _ => slash

end Anchor

/-- A path: how it starts, and the names along it. -/
structure Path where
  anchor : Anchor
  names : List String
deriving DecidableEq

namespace Path

/-- The path that a text denotes. -/
def ofText (text : String) : Path where
  anchor := Anchor.ofChars text.toList
  names :=
    ((Text.Blank.pieces '/' text.toList).map String.ofList).filter fun name =>
      name != "" && name != "."

/-- The text of a path; the empty path is the working directory. -/
def text (path : Path) : String :=
  if path = ⟨.relative, []⟩ then "."
  else path.anchor.text ++ "/".intercalate path.names

/-- The parts by which paths are ordered. -/
def parts (path : Path) : List String :=
  match path.anchor with
  | .relative => path.names
  | anchor => anchor.text :: path.names

/-- Lists of texts compare by the first part that differs; a list comes before its
continuations. -/
def partsLe : List String → List String → Bool
  | [], _ => true
  | _ :: _, [] => false
  | first :: firsts, second :: seconds =>
      if first = second then partsLe firsts seconds else decide (first < second)

/-- Paths compare by their parts. -/
def le (first second : Path) : Bool :=
  partsLe first.parts second.parts

/-- The path that continues another by some names. -/
def append (path : Path) (names : List String) : Path :=
  { path with names := path.names ++ names }

/-- The extension of a name: from its last dot, unless that dot is the first or the last
character. -/
def extensionOf (name : List Char) : List Char :=
  let afterDot := (name.reverse.takeWhile (· != '.')).reverse
  if afterDot.isEmpty || name.length ≤ afterDot.length + 1 then [] else '.' :: afterDot

/-- The extension of the last name of a path. -/
def extension (path : Path) : String :=
  match path.names.getLast? with
  | none => ""
  | some name => String.ofList (extensionOf name.toList)

/-- The names of an absolute path after taking each `..` back to the directory before,
starting from the working directory unless the path is absolute. -/
def resolve (workingDirectory : List String) (path : Path) : List String :=
  let start := if path.anchor = .relative then workingDirectory else []
  path.names.foldl (fun names name => if name = ".." then names.dropLast else names ++ [name])
    start

/-- Whether no name along a path holds a NUL, which no file system admits. -/
def isAdmissible (path : Path) : Bool :=
  path.names.all fun name => name.toList.all (· != '\x00')

/-- How a path is shown: relative to a base if it lies below it, and otherwise as it was
given. A path that no file system admits lies nowhere. -/
def shorten (workingDirectory : List String) (base : Path) (given : String) : String :=
  let path := ofText given
  let names := path.resolve workingDirectory
  let above := base.resolve workingDirectory
  if path.isAdmissible && base.isAdmissible && above.isPrefixOf names then
    (Path.mk .relative (names.drop above.length)).text
  else given

end Path

end StaleRead
