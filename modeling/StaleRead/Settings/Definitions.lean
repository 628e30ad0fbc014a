import StaleRead.Text.Blank

/-! # Files that define variables

A definitions file has one definition a line, `NAME=value` or `NAME` alone, after an
optional `export`. A value may stand in quotes and then goes up to the closing quote,
over line ends if need be; otherwise it goes to the end of the line or to a `#` behind
a blank. Blank lines and lines that start with `#` define nothing, and a line that is
not well formed is skipped. Of several definitions of one name only the last counts, and
`NAME` alone gives no value.

Parts of the format are left out. A backslash in quotes stands for itself, also before a
quote, and is no escape; a variable in a value is not replaced by what it holds. A file that
cannot be read, or whose bytes are not UTF-8, is no error: the one defines nothing, and the
other is read without the bytes that are not.
-/

namespace StaleRead

/-- A name with its value, if it has one. -/
structure Definition where
  name : String
  value? : Option String
deriving DecidableEq

namespace Definition

open Text.Blank

/-- A blank that does not end the line. -/
def isSpace (c : Char) : Bool :=
  isBlank c && c != '\n'

/-- What follows the spaces at the front. -/
def skipSpaces (chars : List Char) : List Char :=
  chars.dropWhile isSpace

/-- What follows the current line. -/
def skipLine (chars : List Char) : List Char :=
  (chars.dropWhile (· != '\n')).drop 1

/-- Reading one part of a definition: the part and what follows it, or else the place
where the line turned out not to be well formed. -/
abbrev Read (α : Type) := Except (List Char) (α × List Char)

/-- What follows the word `export` and some spaces, if the line starts with them. -/
def skipExport (chars : List Char) : List Char :=
  let word := "export".toList
  let rest := chars.drop word.length
  if chars.take word.length = word ∧ rest.head?.any isSpace then skipSpaces rest else chars

/-- Read up to a closing quote. -/
def readQuoted (quote : Char) (chars : List Char) : Read (List Char) :=
  match chars.dropWhile (· != quote) with
  | [] => .error chars
  | _ :: rest => .ok (chars.takeWhile (· != quote), rest)

/-- Read a name; a comment has none. -/
def readName (chars : List Char) : Read (Option (List Char)) :=
  match chars with
  | '#' :: _ => .ok (none, chars)
  | '\'' :: quoted =>
      match readQuoted '\'' quoted with
      | .ok ([], _) => .error chars
      | .ok (name, rest) => .ok (some name, rest)
      | .error place => .error place
  | chars =>
      let inName (c : Char) : Bool := c != '=' && c != '#' && !isBlank c
      match chars.takeWhile inName with
      | [] => .error chars
      | name => .ok (some name, chars.dropWhile inName)

/-- The part of a line before a `#` that follows a blank. -/
def beforeComment (afterBlank : Bool) : List Char → List Char
  | [] => []
  | c :: rest =>
      if c = '#' ∧ afterBlank then [] else c :: beforeComment (isBlank c) rest

/-- Read what follows the equals sign. -/
def readValue (chars : List Char) : Read (List Char) :=
  match skipSpaces chars with
  | '\'' :: quoted => readQuoted '\'' quoted
  | '"' :: quoted => readQuoted '"' quoted
  | unquoted =>
      let line := unquoted.takeWhile (· != '\n')
      let afterBlank := chars.head?.any isSpace
      .ok (trimEnd (beforeComment afterBlank line), unquoted.dropWhile (· != '\n'))

/-- Read an equals sign and a value, or nothing. -/
def readAssigned (chars : List Char) : Read (Option (List Char)) :=
  match skipSpaces chars with
  | '=' :: rest =>
      match readValue rest with
      | .ok (value, rest) => .ok (some value, rest)
      | .error place => .error place
  | rest => .ok (none, rest)

/-- Read an optional comment and the end of the line. -/
def readEnd (chars : List Char) : Read Unit :=
  let rest :=
    match skipSpaces chars with
    | '#' :: comment => comment.dropWhile (· != '\n')
    | rest => rest
  match rest with
  | [] => .ok ((), [])
  | '\n' :: rest => .ok ((), rest)
  | rest => .error rest

/-- Read a line that is well formed. -/
def readLine (chars : List Char) : Except (List Char) (Option Definition × List Char) := do
  let (name?, rest) ← readName (skipExport chars)
  let (value?, rest) ← readAssigned rest
  let ((), rest) ← readEnd rest
  return (name?.map fun name => ⟨String.ofList name, value?.map String.ofList⟩, rest)

/-- Read all definitions after skipping `taken` characters, which the definition just
read has used. -/
def readFrom : Nat → List Char → List Definition
  | _, [] => []
  | taken + 1, _ :: rest => readFrom taken rest
  | 0, c :: rest =>
      if isBlank c then readFrom 0 rest
      else
        match readLine (c :: rest) with
        | .ok (definition?, after) =>
            definition?.toList ++ readFrom (rest.length - after.length) rest
        | .error place => readFrom (rest.length - (skipLine place).length) rest

/-- A text in which every line ends with a line feed alone. -/
def unifyLineEnds : List Char → List Char
  | [] => []
  | '\r' :: '\n' :: rest => '\n' :: unifyLineEnds rest
  | c :: rest => (if c = '\r' then '\n' else c) :: unifyLineEnds rest

/-- The definitions of a file, without a byte order mark. -/
def ofText (text : String) : List Definition :=
  let chars := unifyLineEnds text.toList
  readFrom 0 (if chars.head? = some '\uFEFF' then chars.drop 1 else chars)

/-- The definition that counts for each name: the last one. -/
def lastOfEach : List Definition → List Definition
  | [] => []
  | definition :: rest =>
      if rest.any (·.name == definition.name) then lastOfEach rest
      else definition :: lastOfEach rest

end Definition

end StaleRead
