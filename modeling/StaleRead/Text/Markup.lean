/-! # Text in markup

Messages are written in a markup language in which `[bold]` and the like are tags and
a backslash takes the meaning from a tag. `Markup.escape` writes a text so that it is
shown as it is: backslashes before a tag are doubled and one more is added, and so is
one to a lone backslash at the end, which would act on what follows.
-/

namespace StaleRead.Text.Markup

/-- The characters that a tag can start with, after its bracket. -/
def startsTag (c : Char) : Bool :=
  ('a' ≤ c && c ≤ 'z') || c == '#' || c == '/' || c == '@'

/-- Whether a closing bracket comes before any opening one. -/
def closes : List Char → Bool
  | [] => false
  | c :: rest => if c = ']' then true else if c = '[' then false else closes rest

/-- Whether the characters behind a bracket make it a tag. -/
def opensTag : List Char → Bool
  | [] => false
  | c :: rest => startsTag c && closes rest

/-- Escape tags, when some backslashes stand directly before. -/
def escapeTags : Nat → List Char → List Char
  | _, [] => []
  | run, c :: rest =>
      if c = '\\' then
        c :: escapeTags (run + 1) rest
      else if c = '[' ∧ opensTag rest then
        List.replicate (run + 1) '\\' ++ c :: escapeTags 0 rest
      else
        c :: escapeTags 0 rest

/-- Add a backslash to a single one at the end. -/
def closeEnd (chars : List Char) : List Char :=
  match chars.reverse with
  | '\\' :: '\\' :: _ => chars
  | '\\' :: _ => chars ++ ['\\']
  | _ => chars

/-- A text written so that markup shows it as it is. -/
def escape (text : String) : String :=
  String.ofList (closeEnd (escapeTags 0 text.toList))

end StaleRead.Text.Markup
