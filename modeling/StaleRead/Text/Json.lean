/-! # Records as JSON text

A list of flat records is written as a JSON array with one member a line, indented by
two spaces a level. All but printable ASCII is escaped, with a surrogate pair for a
character past U+FFFF.
-/

namespace StaleRead.Text.Json

/-- The value of a field. -/
inductive Scalar where
  | number (value : Nat)
  | text (value : String)
deriving DecidableEq

/-- The fields of a record, in order. -/
abbrev Record := List (String × Scalar)

/-- A digit to base sixteen. -/
def hexDigit (value : Nat) : Char :=
  if value < 10 then Char.ofNat (48 + value) else Char.ofNat (87 + value)

/-- The escape of a code unit of sixteen bits. -/
def escapeUnit (unit : Nat) : List Char :=
  ['\\', 'u', hexDigit (unit / 0x1000 % 16), hexDigit (unit / 0x100 % 16),
    hexDigit (unit / 0x10 % 16), hexDigit (unit % 16)]

/-- A character inside a string. -/
def escapeChar (c : Char) : List Char :=
  let code := c.toNat
  if c = '"' then ['\\', '"']
  else if c = '\\' then ['\\', '\\']
  else if c = '\n' then ['\\', 'n']
  else if c = '\r' then ['\\', 'r']
  else if c = '\t' then ['\\', 't']
  else if code = 0x08 then ['\\', 'b']
  else if code = 0x0C then ['\\', 'f']
  else if 0x20 ≤ code ∧ code ≤ 0x7E then [c]
  else if code < 0x10000 then escapeUnit code
  else
    escapeUnit (0xD800 + (code - 0x10000) / 0x400) ++
      escapeUnit (0xDC00 + (code - 0x10000) % 0x400)

/-- A text as a JSON string. -/
def quote (text : String) : List Char :=
  '"' :: text.toList.flatMap escapeChar ++ ['"']

/-- A field's value. -/
def scalar : Scalar → List Char
  | .number value => Nat.toDigits 10 value
  | .text value => quote value

/-- A line end with the indentation of a level. -/
def newline (level : Nat) : List Char :=
  '\n' :: List.replicate (2 * level) ' '

/-- Members between brackets, each on a line of its own; without members, the brackets
alone. -/
def enclose (opening closing : Char) (level : Nat) (members : List (List Char)) : List Char :=
  if members.isEmpty then [opening, closing]
  else
    opening :: newline (level + 1) ++
      List.intercalate (',' :: newline (level + 1)) members ++ newline level ++ [closing]

/-- A field: its name and its value. -/
def field (entry : String × Scalar) : List Char :=
  quote entry.1 ++ [':', ' '] ++ scalar entry.2

/-- A record inside an array. -/
def record (fields : Record) : List Char :=
  enclose '\x7b' '\x7d' 1 (fields.map field)

/-- An array of records. -/
def render (records : List Record) : String :=
  String.ofList (enclose '[' ']' 0 (records.map record))

end StaleRead.Text.Json
