import Mathlib.Data.List.Basic
import StaleRead.Proofs.Finding.Order
import StaleRead.Proofs.Text.Utf8

/-! # The place of a finding

The offset of a line and a column is found by counting through the rows of the source, which
line feeds separate (`Source.offset`). Every offset is that of its point
(`Source.offset_point`), so the two ends of a finding, as it counts them, lead back to the
range that it was made at, and its text is what the bytes of this range read as
(`Finding.madeAt_ofSpan`).
-/

namespace StaleRead

namespace Source

/-- The offset at which a row begins: behind the rows before it, each with its line feed. -/
def rowStart (bytes : List UInt8) (row : Nat) : Nat :=
  (((bytes.splitOn lineFeed).take row).flatMap fun row => row ++ [lineFeed]).length

/-- The byte offset of a line and a column, both counted from one. -/
def offset (source : Source) (line column : Nat) : Nat :=
  rowStart source.bytes (line - 1) + (column - 1)

theorem lastRowStart_of_flat {bytes : List UInt8} (flat : lineFeed ∉ bytes) :
    lastRowStart bytes = 0 := by
  have same : lastRowStart ([] ++ bytes) = lastRowStart [] :=
    lastRowStart_append (List.count_eq_zero.mpr flat)
  exact same

/-- The rows behind a line feed do not depend on what stands before it. -/
theorem lastRowStart_append_lineFeed (before after : List UInt8) :
    lastRowStart (before ++ lineFeed :: after) = before.length + 1 + lastRowStart after := by
  have stops : (before ++ lineFeed :: after).reverse.takeWhile (· != lineFeed) =
      after.reverse.takeWhile (· != lineFeed) := by
    rw [List.reverse_append, List.reverse_cons, List.append_assoc, List.takeWhile_append]
    split_ifs with whole
    · rw [List.singleton_append, List.takeWhile_cons_of_neg (by simp), List.append_nil]
      exact ((List.takeWhile_prefix _).eq_of_length whole).symm
    · rfl
  have short := (List.takeWhile_prefix (l := after.reverse) (· != lineFeed)).length_le
  simp only [lastRowStart, stops, List.length_append, List.length_cons] at short ⊢
  rw [List.length_reverse] at short
  omega

/-- As many rows begin before the last row of some bytes as there are line feeds in them. -/
theorem rowStart_count (first second : List UInt8) :
    rowStart (first ++ second) (first.count lineFeed) = lastRowStart first := by
  induction size : first.length using Nat.strongRecOn generalizing first with
  | ind size ih =>
      by_cases broken : lineFeed ∈ first
      · obtain ⟨row, rest, rfl, flat⟩ := List.eq_append_cons_of_mem broken
        have shorter : rest.length < (row ++ lineFeed :: rest).length := by simp; omega
        have later := ih _ (size ▸ shorter) rest rfl
        rw [rowStart] at later ⊢
        rw [List.append_assoc, List.cons_append, List.splitOn_append_cons_self_of_not_mem flat,
          List.count_append, List.count_eq_zero.mpr flat, List.count_cons_self, Nat.zero_add,
          List.take_succ_cons, List.flatMap_cons, List.length_append, List.length_append, later,
          List.length_singleton, lastRowStart_append_lineFeed]
      · rw [List.count_eq_zero.mpr broken, lastRowStart_of_flat broken]
        rfl

/-- A point, counted from one, leads back to its offset. -/
theorem offset_point (source : Source) (offset : Nat) :
    source.offset ((source.point offset).row + 1) ((source.point offset).column + 1) = offset := by
  have starts := rowStart_count (source.bytes.take offset) (source.bytes.drop offset)
  have before := lastRowStart_le (source.bytes.take offset)
  have short := List.length_take_le offset source.bytes
  rw [List.take_append_drop] at starts
  simp only [Source.offset, point, Nat.add_sub_cancel, starts]
  omega

end Source

/-- A finding was made at a span: its lines and columns count from one and lead back to the
two ends of the span, and its text is read from the bytes between them. -/
structure Finding.MadeAt (source : Source) (finding : Finding) (span : Span) : Prop where
  counted : 1 ≤ finding.line ∧ 1 ≤ finding.column ∧ 1 ≤ finding.endLine ∧ 1 ≤ finding.endColumn
  start : source.offset finding.line finding.column = span.start
  stop : source.offset finding.endLine finding.endColumn = span.stop
  text : Text.Utf8.Reads
    (source.slice (source.offset finding.line finding.column)
      (source.offset finding.endLine finding.endColumn))
    finding.text.toList

theorem Finding.madeAt_ofSpan (source : Source) (file : String) (message : Message)
    (span : Span) : (ofSpan source file message span).MadeAt source span := by
  have start := source.offset_point span.start
  have stop := source.offset_point span.stop
  refine ⟨⟨Nat.succ_pos _, Nat.succ_pos _, Nat.succ_pos _, Nat.succ_pos _⟩, start, stop, ?_⟩
  simp only [ofSpan, start, stop, Source.text, Text.Utf8.decode, String.toList_ofList]
  exact Text.Utf8.reads_iff.mpr rfl

end StaleRead
