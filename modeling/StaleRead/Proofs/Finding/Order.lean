import Mathlib.Data.List.Sort
import StaleRead.Finding.Log

/-! # The order of findings

A later offset has a later point (`Source.point_lt`), so findings are ordered as the
byte ranges that they are made at (`Finding.le_ofSpan_iff`), and two findings of one file
that each come before the other are equal. The sorted findings therefore depend only on
where findings were made and how often, not on the order in which they were made
(`Finding.sortBy_map_ofSpan_eq`).
-/

namespace StaleRead

namespace Source

theorem lastRowStart_le (bytes : List UInt8) : lastRowStart bytes ≤ bytes.length :=
  Nat.sub_le ..

/-- Bytes without a line feed continue the last row. -/
theorem lastRowStart_append {first second : List UInt8} (flat : second.count lineFeed = 0) :
    lastRowStart (first ++ second) = lastRowStart first := by
  have passed : ∀ byte ∈ second.reverse, (byte != lineFeed) = true := by
    intro byte member
    rw [bne_iff_ne]
    rintro rfl
    exact List.count_eq_zero.mp flat (List.mem_reverse.mp member)
  rw [lastRowStart, List.reverse_append, List.takeWhile_append_of_pos passed, List.length_append,
    List.length_append, List.length_reverse, lastRowStart]
  omega

/-- A later offset is in a later row, or further to the right in the same row. -/
theorem point_lt (source : Source) {first second : Nat} (before : first < second) :
    (source.point first).row < (source.point second).row ∨
      (source.point first).row = (source.point second).row ∧
        (source.point first).column < (source.point second).column := by
  obtain ⟨between, split⟩ : ∃ between,
      source.bytes.take second = source.bytes.take first ++ between :=
    ⟨(source.bytes.drop first).take (second - first), by
      rw [← List.take_add, Nat.add_sub_cancel' before.le]⟩
  simp only [point, split, List.count_append]
  by_cases flat : between.count lineFeed = 0
  · right
    have start := lastRowStart_le (source.bytes.take first)
    have short := List.length_take_le first source.bytes
    rw [lastRowStart_append flat, flat]
    omega
  · left
    omega

/-- Offsets are ordered as their points, by row and then by column. -/
theorem point_order (source : Source) (first second : Nat) :
    (first < second ↔
      (source.point first).row < (source.point second).row ∨
        (source.point first).row = (source.point second).row ∧
          (source.point first).column < (source.point second).column) ∧
    (first = second ↔
      (source.point first).row = (source.point second).row ∧
        (source.point first).column = (source.point second).column) := by
  rcases Nat.lt_trichotomy first second with before | rfl | after
  · have := source.point_lt before
    omega
  · omega
  · have := source.point_lt after
    omega

end Source

namespace Finding

theorem le_iff (first second : Finding) :
    le first second = true ↔
      first.line < second.line ∨ first.line = second.line ∧
        (first.column < second.column ∨ first.column = second.column ∧
          (first.endLine < second.endLine ∨ first.endLine = second.endLine ∧
            first.endColumn ≤ second.endColumn)) := by
  rw [le]
  split_ifs <;> rw [decide_eq_true_eq] <;> omega

theorem le_total (first second : Finding) : le first second = true ∨ le second first = true := by
  rw [le_iff, le_iff]
  omega

theorem le_trans {first second third : Finding} (lower : le first second = true)
    (upper : le second third = true) : le first third = true := by
  rw [le_iff] at lower upper ⊢
  omega

/-- Findings of a file are ordered by the ranges that they are made at: by start, then
by end. -/
theorem le_ofSpan_iff (source : Source) (file : String) (message : Message)
    (first second : Span) :
    le (ofSpan source file message first) (ofSpan source file message second) = true ↔
      first.start < second.start ∨ first.start = second.start ∧ first.stop ≤ second.stop := by
  have starts := source.point_order first.start second.start
  have stops := source.point_order first.stop second.stop
  rw [le_iff, Nat.le_iff_lt_or_eq (m := second.stop), starts.1, starts.2, stops.1, stops.2]
  simp only [ofSpan, Nat.add_lt_add_iff_right, Nat.add_right_cancel_iff, Nat.le_iff_lt_or_eq,
    or_assoc, and_assoc, and_or_left]

/-- Findings of a file at one place are equal. -/
theorem ofSpan_eq_of_le (source : Source) (file : String) (message : Message)
    {first second : Span}
    (lower : le (ofSpan source file message first) (ofSpan source file message second) = true)
    (upper : le (ofSpan source file message second) (ofSpan source file message first) = true) :
    ofSpan source file message first = ofSpan source file message second := by
  rw [le_ofSpan_iff] at lower upper
  have start : first.start = second.start := by omega
  have stop : first.stop = second.stop := by omega
  simp only [ofSpan, start, stop]

end Finding

section Sorting

variable {α : Type} (le : α → α → Bool)

theorem insertBy_eq_orderedInsert (a : α) (elements : List α) :
    insertBy le a elements = elements.orderedInsert (fun first second => le first second) a := by
  induction elements with
  | nil => rfl
  | cons b rest ih => rw [insertBy, List.orderedInsert_cons, ih]

theorem sortBy_eq_insertionSort (elements : List α) :
    sortBy le elements = elements.insertionSort fun first second => le first second := by
  induction elements with
  | nil => rfl
  | cons a rest ih =>
      rw [List.insertionSort_cons, ← ih, ← insertBy_eq_orderedInsert]
      rfl

theorem sortBy_perm (elements : List α) : (sortBy le elements).Perm elements := by
  rw [sortBy_eq_insertionSort]
  exact List.perm_insertionSort _ elements

/-- A list holds the elements of another one in ascending order, and those that the order
does not tell apart as they stood there. -/
structure StablySorted (elements sorted : List α) : Prop where
  perm : sorted.Perm elements
  pairwise : sorted.Pairwise fun first second => le first second = true
  ties : ∀ a, sorted.filter (fun b => le a b && le b a) =
    elements.filter fun b => le a b && le b a

variable {le}

theorem stablySorted_sortBy (total : ∀ a b, le a b = true ∨ le b a = true)
    (trans : ∀ {a b c}, le a b = true → le b c = true → le a c = true) (elements : List α) :
    StablySorted le elements (sortBy le elements) := by
  have : Std.Total fun first second : α => le first second = true := ⟨total⟩
  have : IsTrans α fun first second => le first second = true := ⟨fun _ _ _ => trans⟩
  refine ⟨sortBy_perm le elements, ?_, fun a => ?_⟩
  · rw [sortBy_eq_insertionSort]
    exact List.pairwise_insertionSort _ elements
  · -- What ties with `a` is sorted already, so sorting keeps it as a sublist, and adds nothing.
    let tied (b : α) : Bool := le a b && le b a
    have sorted : (elements.filter tied).Pairwise fun first second => le first second = true := by
      refine List.pairwise_of_forall_mem_list fun b inB c inC => ?_
      have tiedB := (List.mem_filter.mp inB).2
      have tiedC := (List.mem_filter.mp inC).2
      rw [Bool.and_eq_true] at tiedB tiedC
      exact trans tiedB.2 tiedC.1
    have kept : (elements.filter tied).Sublist (sortBy le elements) := by
      rw [sortBy_eq_insertionSort]
      exact List.sublist_insertionSort sorted List.filter_sublist
    have among := kept.filter tied
    simp only [List.filter_filter, Bool.and_self] at among
    exact (among.eq_of_length ((sortBy_perm le elements).filter tied).length_eq.symm).symm

end Sorting

namespace Finding

theorem stablySorted_sortBy (findings : List Finding) :
    StablySorted le findings (sortBy le findings) :=
  StaleRead.stablySorted_sortBy le_total le_trans findings

/-- Findings of one file are listed the same in whatever order they were made. -/
theorem sortBy_map_ofSpan_eq (source : Source) (file : String) (message : Message)
    {first second : List Span} (perm : first.Perm second) :
    sortBy le (first.map (ofSpan source file message)) =
      sortBy le (second.map (ofSpan source file message)) := by
  have sameFindings := perm.map (ofSpan source file message)
  refine List.Perm.eq_of_pairwise ?_ (stablySorted_sortBy _).pairwise
    (stablySorted_sortBy _).pairwise
    ((sortBy_perm le _).trans (sameFindings.trans (sortBy_perm le _).symm))
  intro one other oneMember otherMember lower upper
  obtain ⟨oneSpan, _, rfl⟩ := List.mem_map.mp ((sortBy_perm le _).mem_iff.mp oneMember)
  obtain ⟨otherSpan, _, rfl⟩ := List.mem_map.mp ((sortBy_perm le _).mem_iff.mp otherMember)
  exact ofSpan_eq_of_le source file message lower upper

end Finding

end StaleRead
