import StaleRead.Text.Blank

/-! # Pieces between separators

The pieces of a text are those of the general split of lists (`Blank.pieces_eq_splitOn`), so
its laws hold for them. No piece holds the separator.
-/

namespace StaleRead.Text.Blank

theorem pieces_eq_splitOn (separator : Char) (chars : List Char) :
    pieces separator chars = chars.splitOn separator := by
  induction chars with
  | nil => rfl
  | cons c rest ih =>
      rw [pieces, List.splitOn_cons_eq_if_modifyHead, ih]
      simp only [beq_iff_eq]

theorem not_mem_of_mem_pieces {separator : Char} {piece chars : List Char}
    (found : piece ∈ pieces separator chars) : separator ∉ piece := by
  induction chars generalizing piece with
  | nil => simp_all [pieces]
  | cons c rest ih =>
      rw [pieces] at found
      split at found
      · rcases List.mem_cons.mp found with rfl | later
        · exact List.not_mem_nil
        · exact ih later
      · rename_i different
        have some_piece : pieces separator rest ≠ [] := by
          rw [pieces_eq_splitOn]
          exact List.splitOn_ne_nil separator rest
        obtain ⟨first, others, split⟩ := List.exists_cons_of_ne_nil some_piece
        rw [split, List.modifyHead_cons] at found
        rcases List.mem_cons.mp found with rfl | later
        · have clear := ih (split ▸ List.mem_cons_self)
          simp [Ne.symm different, clear]
        · exact ih (split ▸ List.mem_cons_of_mem _ later)

/-- The first piece is what stands before the first separator. -/
theorem head?_pieces (separator : Char) (chars : List Char) :
    (pieces separator chars).head? = some (chars.takeWhile (· != separator)) := by
  induction chars with
  | nil => rfl
  | cons c rest ih =>
      rw [pieces]
      by_cases same : c = separator
      · simp [same]
      · simp [same, List.head?_modifyHead, ih]

end StaleRead.Text.Blank
