import StaleRead.Command.Run

/-! # Command lines

The words of a command line name a command and, for the check, its options and the
paths. Options may stand before, between and behind the paths, and the last of several
formats counts.
-/

namespace StaleRead

namespace Command

/-- What a command line can look like. -/
def usage : String :=
  "usage: check [--format text|json] [--include-vendored] [--no-progress] [--verbose] [PATH]..." ++
    " | languages | version"

/-- A check with no options and no paths. -/
def plainCheck : CheckRequest := ⟨[], "text", false, false, false⟩

/-- The check that some words ask for, in addition to what was asked for before. -/
def checkOfWords (request : CheckRequest) : List String → Option CheckRequest
  | [] => some request
  | word :: words =>
      if word = "--format" ∨ word = "-f" then
        match words with
        | [] => none
        | format :: words => checkOfWords { request with format } words
      else if word = "--include-vendored" then
        checkOfWords { request with includeVendored := true } words
      else if word = "--verbose" ∨ word = "-v" then
        checkOfWords { request with verbose := true } words
      else if word = "--no-progress" then
        checkOfWords { request with noProgress := true } words
      else if word.startsWith "-" then
        none
      else
        checkOfWords { request with given := request.given ++ [word] } words

/-- The command that a command line asks for. -/
def ofWords : List String → Option Command
  | "check" :: words => (checkOfWords plainCheck words).map check
  | ["languages"] => some languages
  | ["version"] => some version
  | _ => none

end Command

end StaleRead
