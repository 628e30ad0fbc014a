import StaleRead.Text.Glyph
import StaleRead.Text.Markup

/-! # Output of commands

A command produces messages in markup, tables whose cells are markup, plain lines, and
possibly a progress bar, which is gone in the end. On a terminal without UTF-8 the glyphs of
messages are replaced; the rest stays as it is.
-/

namespace StaleRead

/-- One piece of output. -/
inductive Output where
  /-- A message in markup. -/
  | message (markup : String)
  /-- A table with a title in markup. -/
  | table (title : String) (columns : List String) (rows : List (List String))
  /-- A plain line. -/
  | line (text : String)
  /-- A bar with a description in markup, for a number of steps. -/
  | progressBar (description : String) (total : Nat)
deriving DecidableEq

/-- The lines that a piece of output leaves behind. -/
def Output.lines : Output → List String
  | .message markup => [markup]
  | .table title columns rows => title :: (columns :: rows).map (" | ".intercalate ·)
  | .line text => [text]
  | .progressBar .. => []

/-- What a command produced, and its exit status. -/
structure Outcome where
  status : Nat
  outputs : List Output
deriving DecidableEq

/-- How messages are shown: whether the terminal has UTF-8, and whether details are
wanted. -/
structure Console where
  utf8 : Bool
  verbose : Bool
deriving DecidableEq

namespace Console

/-- A message. -/
def say (console : Console) (markup : String) : Output :=
  .message (Text.Glyph.forTerminal console.utf8 markup)

/-- A message that is given only if details are wanted. -/
def detail (console : Console) (markup : String) : List Output :=
  if console.verbose then [console.say ("[dim]" ++ markup ++ "[/dim]")] else []

/-- An error message; its text is no markup. -/
def error (console : Console) (text : String) : Output :=
  console.say ("[bold red]Error:[/bold red] " ++ Text.Markup.escape text)

end Console

end StaleRead
