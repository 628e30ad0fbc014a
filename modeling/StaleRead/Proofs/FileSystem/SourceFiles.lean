import Mathlib.Data.List.Lex
import Mathlib.Data.String.Basic
import StaleRead.FileSystem.SourceFiles
import StaleRead.Proofs.Path

/-! # The order of the source files

Sorting without repetitions puts the elements in any order that the comparison decides
(`pairwise_sortDistinct`). Paths are ordered as the lists of their parts are (`Path.le_iff`), and
plain paths are known by their parts (`Path.eq_of_parts_eq`). So the source files that are found
stand in the order of paths, and sorted lists of plain paths are the same if the same paths occur
in them (`Path.Ascending.eq_of_mem_iff`).
-/

namespace StaleRead

section SortDistinct

variable {α : Type} [DecidableEq α] {le : α → α → Bool}

theorem mem_insertDistinct (a b : α) (elements : List α) :
    b ∈ insertDistinct le a elements ↔ b = a ∨ b ∈ elements := by
  induction elements with
  | nil => simp [insertDistinct]
  | cons c rest ih =>
      rw [insertDistinct]
      split_ifs with same before
      · subst same
        simp
      · exact List.mem_cons
      · rw [List.mem_cons, ih, List.mem_cons]
        tauto

theorem mem_sortDistinct (a : α) (elements : List α) :
    a ∈ sortDistinct le elements ↔ a ∈ elements := by
  induction elements with
  | nil => exact Iff.rfl
  | cons b rest ih =>
      change a ∈ insertDistinct le b (sortDistinct le rest) ↔ _
      rw [mem_insertDistinct, ih, List.mem_cons]

variable {before : α → α → Prop}

theorem pairwise_insertDistinct (trans : ∀ a b c, before a b → before b c → before a c) (a : α)
    {elements : List α}
    (decides : ∀ b ∈ elements, a ≠ b → if le a b = true then before a b else before b a)
    (sorted : elements.Pairwise before) : (insertDistinct le a elements).Pairwise before := by
  induction elements with
  | nil => exact List.pairwise_singleton _ a
  | cons b rest ih =>
      obtain ⟨least, behind⟩ := List.pairwise_cons.mp sorted
      have decided := decides b List.mem_cons_self
      rw [insertDistinct]
      split_ifs with same first
      · exact sorted
      · rw [if_pos first] at decided
        refine List.pairwise_cons.mpr ⟨fun c member => ?_, sorted⟩
        rcases List.mem_cons.mp member with rfl | later
        · exact decided same
        · exact trans a b c (decided same) (least c later)
      · rw [if_neg first] at decided
        have decidesRest := fun c member => decides c (List.mem_cons_of_mem b member)
        refine List.pairwise_cons.mpr ⟨fun c member => ?_, ih decidesRest behind⟩
        rcases (mem_insertDistinct a c rest).mp member with rfl | later
        · exact decided same
        · exact least c later

/-- Sorting orders a list by any transitive order that the comparison decides for different
elements. -/
theorem pairwise_sortDistinct (trans : ∀ a b c, before a b → before b c → before a c)
    {elements : List α} (decides : ∀ a ∈ elements, ∀ b ∈ elements, a ≠ b →
      if le a b = true then before a b else before b a) :
    (sortDistinct le elements).Pairwise before := by
  induction elements with
  | nil => exact List.Pairwise.nil
  | cons a rest ih =>
      simp only [List.forall_mem_cons] at decides
      obtain ⟨⟨-, decidesFirst⟩, decidesRest⟩ := decides
      have sorted := ih fun b member => (decidesRest b member).2
      refine pairwise_insertDistinct trans a (fun b member => ?_) sorted
      exact decidesFirst b ((mem_sortDistinct b rest).mp member)

end SortDistinct

namespace Path

/-- Parts are compared as lists of texts are in the dictionary. -/
theorem partsLe_iff (first second : List String) :
    partsLe first second = true ↔ ¬ second < first := by
  induction first generalizing second with
  | nil => simp [partsLe]
  | cons part parts ih =>
      cases second with
      | nil => simp [partsLe]
      | cons other others =>
          rw [partsLe, List.cons_lt_cons_iff]
          split_ifs with same
          · subst same
            simp [ih]
          · have different : other ≠ part := fun equal => same equal.symm
            rw [decide_eq_true_iff, not_or, and_iff_left fun equal => different equal.1, not_lt,
              le_iff_lt_or_eq, or_iff_left same]

theorem le_iff (first second : Path) :
    first.le second = true ↔ first.parts ≤ second.parts := by
  rw [le, partsLe_iff, not_lt]

theorem parts_of_relative {path : Path} (relative : path.anchor = .relative) :
    path.parts = path.names := by
  rw [parts, relative]

theorem parts_of_absolute {path : Path} (absolute : path.anchor ≠ .relative) :
    path.parts = path.anchor.text :: path.names := by
  cases anchor : path.anchor with
  | relative => exact absurd anchor absolute
  | slash | doubleSlash => simp only [parts, anchor]

/-- No name along a plain path is an anchor. -/
theorem IsPlain.names_ne {path : Path} (plain : path.IsPlain) {anchor : Anchor}
    (absolute : anchor ≠ .relative) (names : List String) : path.names ≠ anchor.text :: names := by
  intro same
  have clear := (plain anchor.text (same ▸ List.mem_cons_self)).clear
  cases anchor with
  | relative => exact absolute rfl
  | slash | doubleSlash => exact clear (by decide)

theorem anchorText_injective : Function.Injective Anchor.text := by
  intro first second
  cases first <;> cases second <;> decide

/-- Plain paths with the same parts are the same. -/
theorem eq_of_parts_eq {first second : Path} (plain : first.IsPlain) (otherPlain : second.IsPlain)
    (same : first.parts = second.parts) : first = second := by
  obtain ⟨anchor, names⟩ := first
  obtain ⟨otherAnchor, otherNames⟩ := second
  by_cases relative : anchor = .relative <;> by_cases otherRelative : otherAnchor = .relative
  · rw [parts_of_relative relative, parts_of_relative otherRelative] at same
    rw [relative, otherRelative]
    exact congrArg (Path.mk .relative) same
  · rw [parts_of_relative relative, parts_of_absolute otherRelative] at same
    exact (plain.names_ne otherRelative _ same).elim
  · rw [parts_of_absolute relative, parts_of_relative otherRelative] at same
    exact (otherPlain.names_ne relative _ same.symm).elim
  · rw [parts_of_absolute relative, parts_of_absolute otherRelative] at same
    obtain ⟨anchors, rest⟩ := List.cons.inj same
    exact congrArg₂ Path.mk (anchorText_injective anchors) rest

/-- The paths stand in order, and none stands twice. -/
def Ascending (paths : List Path) : Prop :=
  paths.Pairwise fun first second => first.parts < second.parts

/-- An ascending list of paths is known by the paths in it. -/
theorem Ascending.eq_of_mem_iff {first second : List Path} (ascends : Ascending first)
    (otherAscends : Ascending second) (same : ∀ path, path ∈ first ↔ path ∈ second) :
    first = second := by
  have nodup : ∀ {paths : List Path}, Ascending paths → paths.Nodup := fun ascends =>
    List.Pairwise.imp (fun {_ _} lower equal => ne_of_lt lower (congrArg parts equal)) ascends
  have perm := (List.perm_ext_iff_of_nodup (nodup ascends) (nodup otherAscends)).mpr same
  exact perm.eq_of_pairwise (fun _ _ _ _ lower upper => (lt_asymm lower upper).elim) ascends
    otherAscends

/-- Sorting plain paths makes them ascend. -/
theorem ascending_sortDistinct {paths : List Path} (plain : ∀ path ∈ paths, path.IsPlain) :
    Ascending (sortDistinct le paths) := by
  refine pairwise_sortDistinct ?_ fun first member second other differ => ?_
  · intro first second third
    exact lt_trans
  · have apart : first.parts ≠ second.parts := fun same =>
      differ (eq_of_parts_eq (plain first member) (plain second other) same)
    split_ifs with lower
    · exact lt_of_le_of_ne ((le_iff _ _).mp lower) apart
    · exact not_le.mp (mt (le_iff _ _).mpr lower)

end Path

/-- The source files that are found stand in the order of paths. -/
theorem FileSystem.pairwise_sourceFiles (files : FileSystem) (given : List Path)
    (excluded : List String) (includeVendored : Bool) :
    (files.sourceFiles given excluded includeVendored).Pairwise fun first second =>
      first.le second = true := by
  refine pairwise_sortDistinct ?_ fun first _ second _ _ => ?_
  · intro first second third
    rw [Path.le_iff, Path.le_iff, Path.le_iff]
    exact le_trans
  · split_ifs with lower
    · exact lower
    · rw [Path.le_iff] at lower ⊢
      exact le_of_not_ge lower

end StaleRead
