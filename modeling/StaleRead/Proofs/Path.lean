import StaleRead.Path
import StaleRead.Proofs.Text.Pieces

/-! # Paths and their texts

The names along the path of a text are plain: none is empty or a dot, and none holds a slash.
A path with plain names is the path of its own text (`Path.ofText_text`).
-/

namespace StaleRead.Path

open Text.Blank

/-- A name that stands for itself along a path. -/
structure IsPlainName (name : String) : Prop where
  ne_empty : name ≠ ""
  ne_dot : name ≠ "."
  clear : '/' ∉ name.toList

/-- All names along a path are plain. -/
def IsPlain (path : Path) : Prop :=
  ∀ name ∈ path.names, IsPlainName name

instance (name : String) : Decidable (IsPlainName name) :=
  decidable_of_iff (name ≠ "" ∧ name ≠ "." ∧ '/' ∉ name.toList)
    ⟨fun ⟨ne_empty, ne_dot, clear⟩ => ⟨ne_empty, ne_dot, clear⟩,
      fun plain => ⟨plain.ne_empty, plain.ne_dot, plain.clear⟩⟩

instance (path : Path) : Decidable path.IsPlain :=
  inferInstanceAs (Decidable (∀ name ∈ path.names, IsPlainName name))

theorem isPlain_ofText (text : String) : (ofText text).IsPlain := by
  intro name member
  obtain ⟨found, kept⟩ := List.mem_filter.mp member
  obtain ⟨piece, inside, rfl⟩ := List.mem_map.mp found
  rw [Bool.and_eq_true, bne_iff_ne, bne_iff_ne] at kept
  exact ⟨kept.1, kept.2, by simpa using not_mem_of_mem_pieces inside⟩

/-- The names between the slashes of some characters. -/
def namesIn (chars : List Char) : List String :=
  ((pieces '/' chars).map String.ofList).filter fun name => name != "" && name != "."

theorem ofText_eq (text : String) : ofText text = ⟨.ofChars text.toList, namesIn text.toList⟩ :=
  rfl

/-- An anchor is no name. -/
theorem namesIn_anchor (anchor : Anchor) (chars : List Char) :
    namesIn (anchor.text.toList ++ chars) = namesIn chars := by
  have slash : ∀ chars, namesIn ('/' :: chars) = namesIn chars := by
    simp [namesIn, pieces]
  cases anchor <;> simp [Anchor.text, slash]

/-- An anchor is found again in front of characters that do not begin with a slash. -/
theorem ofChars_anchor (anchor : Anchor) {chars : List Char}
    (begin : chars.takeWhile (· == '/') = []) :
    Anchor.ofChars (anchor.text.toList ++ chars) = anchor := by
  cases anchor <;> simp [Anchor.text, Anchor.ofChars, begin]

/-- Plain names with slashes between them are found again. -/
theorem namesIn_intercalate {names : List String} (plain : ∀ name ∈ names, IsPlainName name) :
    namesIn ("/".intercalate names).toList = names := by
  by_cases empty : names = []
  · subst empty
    rfl
  have clear : ∀ piece ∈ names.map String.toList, '/' ∉ piece := by
    simpa using fun name member => (plain name member).clear
  have found : pieces '/' ("/".intercalate names).toList = names.map String.toList := by
    rw [String.toList_intercalate, pieces_eq_splitOn]
    exact List.splitOn_intercalate '/' clear (by simpa using empty)
  rw [namesIn, found, List.map_map, List.filter_eq_self.mpr]
  · simp [Function.comp_def]
  · intro name member
    obtain ⟨other, inside, rfl⟩ := List.mem_map.mp member
    simp [(plain other inside).ne_empty, (plain other inside).ne_dot]

/-- Plain names with slashes between them do not begin with a slash. -/
theorem takeWhile_intercalate {names : List String} (plain : ∀ name ∈ names, IsPlainName name) :
    ("/".intercalate names).toList.takeWhile (· == '/') = [] := by
  cases names with
  | nil => rfl
  | cons name names =>
      have first := plain name List.mem_cons_self
      obtain ⟨c, rest, split⟩ := List.exists_cons_of_ne_nil
        (mt String.toList_eq_nil_iff.mp first.ne_empty)
      have different : c ≠ '/' := by
        rintro rfl
        exact first.clear (split ▸ List.mem_cons_self)
      rw [String.toList_intercalate, List.map_cons, split]
      cases names <;> simp [different]

/-- A path with plain names is the path of its own text. -/
theorem ofText_text {path : Path} (plain : path.IsPlain) : ofText path.text = path := by
  obtain ⟨anchor, names⟩ := path
  rw [text]
  split
  · rename_i here
    rw [here]
    rfl
  · rw [ofText_eq, String.toList_append, ofChars_anchor anchor (takeWhile_intercalate plain),
      namesIn_anchor, namesIn_intercalate plain]

/-- The path of a text is the path of its own text. -/
theorem ofText_text_ofText (given : String) : ofText (ofText given).text = ofText given :=
  ofText_text (isPlain_ofText given)

end StaleRead.Path
