import StaleRead.Source
import StaleRead.Tree.Basic

/-! # Findings

A finding says what is wrong at a place in a file. Its place is counted in lines and in
bytes of a line, both from one, and it quotes the text found there. Findings are
ordered by their place.
-/

namespace StaleRead

/-- What a finding says. -/
inductive Message where
  /-- The update should take a callback. -/
  | useCallback
deriving DecidableEq

namespace Message

/-- The identifier of a message. -/
def id : Message → String
  | useCallback => "useCallback"

/-- The wording of a message. -/
def text : Message → String
  | useCallback =>
      "Use a callback in the state-update call when referencing the previous state."

/-- The message with a given identifier. -/
def ofId? (id : String) : Option Message :=
  if id = useCallback.id then some useCallback else none

end Message

/-- The name of the rule that findings break. -/
def ruleName : String := "no-access-state-in-setstate"

/-- A finding: where it is, counted from one, what it says, and the text found there. -/
structure Finding where
  file : String
  line : Nat
  column : Nat
  endLine : Nat
  endColumn : Nat
  message : Message
  text : String
deriving DecidableEq

namespace Finding

/-- The finding at a span. -/
def ofSpan (source : Source) (file : String) (message : Message) (span : Span) : Finding :=
  let first := source.point span.start
  let last := source.point span.stop
  { file
    line := first.row + 1
    column := first.column + 1
    endLine := last.row + 1
    endColumn := last.column + 1
    message
    text := source.text span.start span.stop }

/-- Findings compare by line, column, last line and last column. -/
def le (first second : Finding) : Bool :=
  if first.line ≠ second.line then first.line < second.line
  else if first.column ≠ second.column then first.column < second.column
  else if first.endLine ≠ second.endLine then first.endLine < second.endLine
  else first.endColumn ≤ second.endColumn

end Finding

end StaleRead
