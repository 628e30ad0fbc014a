import StaleRead.Finding.Basic
import StaleRead.Sorting

/-! # Logs of findings

A log collects the findings of one file. A finding is made at a read, possibly on
account of another node, the site that uses it; each pair of a read and a site is
logged once. Findings are listed by place, and those at one place in the order in
which they were made.
-/

namespace StaleRead

/-- A message identifier that no message has. -/
structure UnknownMessage where
  id : String
deriving DecidableEq

/-- The findings of one file and the pairs that were logged. -/
structure FindingLog where
  file : String
  seen : List (Span × Option Span)
  findings : List Finding

namespace FindingLog

/-- The log of a file before any finding. -/
def ofFile (file : String) : FindingLog := ⟨file, [], []⟩

/-- Log a read, on account of a site if one is given, and tell whether the pair is new. -/
def add (source : Source) (log : FindingLog) (message : Message) (read : Span)
    (site? : Option Span) : Bool × FindingLog :=
  if (read, site?) ∈ log.seen then (false, log)
  else
    (true, { log with
      seen := (read, site?) :: log.seen
      findings := log.findings ++ [Finding.ofSpan source log.file message read] })

/-- Log a read with a message given by its identifier. An unknown identifier is an error
for a new pair, and the pair counts as logged all the same. -/
def addById (source : Source) (log : FindingLog) (id : String) (read : Span)
    (site? : Option Span) : Except UnknownMessage Bool × FindingLog :=
  match Message.ofId? id with
  | some message =>
      let (isNew, log) := log.add source message read site?
      (.ok isNew, log)
  | none =>
      if (read, site?) ∈ log.seen then (.ok false, log)
      else (.error ⟨id⟩, { log with seen := (read, site?) :: log.seen })

/-- The findings by place. -/
def sorted (log : FindingLog) : List Finding :=
  sortBy Finding.le log.findings

end FindingLog

end StaleRead
