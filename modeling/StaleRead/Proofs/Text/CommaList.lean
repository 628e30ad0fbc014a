import Mathlib.Data.List.DropRight
import StaleRead.Proofs.Text.Pieces
import StaleRead.Settings.Basic

/-! # Comma lists

The items of a comma list are written in parts of the text that stand between commas, each with
any blanks around it, and any further parts may be blank (`Blank.Spread`). A text lists some items
exactly if it is written from them in this way (`Blank.commaItems_eq_iff`). So what is read from a
list is written and read again as it is, and no environment gives the settings a blank name of a
base (`Blank.commaList_roundTrip`).
-/

namespace StaleRead.Text.Blank

/-- All characters are blanks. -/
def AllBlank (chars : List Char) : Prop :=
  ∀ c ∈ chars, isBlank c = true

instance (chars : List Char) : Decidable (AllBlank chars) :=
  decidable_of_iff (chars.all isBlank = true) List.all_eq_true

/-- What can be listed: it is not empty, holds no comma, and has no blank at either end. -/
structure IsItem (item : List Char) : Prop where
  nonempty : item ≠ []
  clear : ',' ∉ item
  first : ∀ c ∈ item.head?, isBlank c = false
  last : ∀ c ∈ item.getLast?, isBlank c = false

theorem isItem_iff (item : List Char) :
    IsItem item ↔ item ≠ [] ∧ ',' ∉ item ∧ item.head?.toList.all (!isBlank ·) = true ∧
      item.getLast?.toList.all (!isBlank ·) = true := by
  simp only [List.all_eq_true, Option.mem_toList, Bool.not_eq_true']
  exact ⟨fun ⟨nonempty, clear, first, last⟩ => ⟨nonempty, clear, first, last⟩,
    fun ⟨nonempty, clear, first, last⟩ => ⟨nonempty, clear, first, last⟩⟩

instance (item : List Char) : Decidable (IsItem item) :=
  decidable_of_iff _ (isItem_iff item).symm

/-- Items spread over the parts of a text: in order, each in a part of its own with blanks around
it, and the parts without an item are blank. -/
inductive Spread : List (List Char) → List (List Char) → Prop
  | done : Spread [] []
  | blank {items parts : List (List Char)} {part : List Char} (blank : AllBlank part)
      (others : Spread items parts) : Spread items (part :: parts)
  | item {items parts : List (List Char)} {left item right : List Char} (before : AllBlank left)
      (behind : AllBlank right) (others : Spread items parts) :
      Spread (item :: items) ((left ++ item ++ right) :: parts)

variable {chars left item right : List Char} {items parts : List (List Char)}

theorem trimEnd_eq_rdropWhile (chars : List Char) : trimEnd chars = chars.rdropWhile isBlank :=
  rfl

theorem allBlank_takeWhile (chars : List Char) : AllBlank (chars.takeWhile isBlank) :=
  fun _ => List.mem_takeWhile_imp

theorem allBlank_rtakeWhile (chars : List Char) : AllBlank (chars.rtakeWhile isBlank) :=
  fun _ => List.mem_rtakeWhile_imp

/-- A text is what is left of it between the blanks at its ends. -/
theorem exists_eq_append_trimChars (chars : List Char) :
    ∃ left right, AllBlank left ∧ AllBlank right ∧ chars = left ++ trimChars chars ++ right := by
  refine ⟨chars.takeWhile isBlank, (chars.dropWhile isBlank).rtakeWhile isBlank,
    allBlank_takeWhile _, allBlank_rtakeWhile _, ?_⟩
  rw [trimChars, trimEnd_eq_rdropWhile, List.append_assoc, List.rdropWhile_append_rtakeWhile,
    List.takeWhile_append_dropWhile]

theorem trimChars_eq_nil_iff : trimChars chars = [] ↔ AllBlank chars := by
  rw [trimChars, trimEnd_eq_rdropWhile, List.rdropWhile_eq_nil_iff]
  constructor
  · intro inside c member
    rw [← List.takeWhile_append_dropWhile (p := isBlank) (l := chars), List.mem_append] at member
    exact member.elim (allBlank_takeWhile chars c) (inside c)
  · exact fun blank c member => blank c (List.dropWhile_sublist _ |>.mem member)

/-- What is left of an item with blanks around it is the item. -/
theorem IsItem.trimChars_append (isItem : IsItem item) (before : AllBlank left)
    (behind : AllBlank right) : trimChars (left ++ item ++ right) = item := by
  obtain ⟨c, rest, split⟩ := List.exists_cons_of_ne_nil isItem.nonempty
  have front : isBlank c = false := isItem.first c (by simp [split])
  have whole : item.rdropWhile isBlank = item := by
    refine List.rdropWhile_eq_self_iff.mpr fun nonempty => ?_
    rw [isItem.last _ (List.getLast?_eq_some_getLast nonempty)]
    exact Bool.false_ne_true
  calc trimChars (left ++ item ++ right)
      = (item ++ right).rdropWhile isBlank := by
        rw [trimChars, trimEnd_eq_rdropWhile, List.append_assoc,
          List.dropWhile_append_of_pos before, split, List.cons_append,
          List.dropWhile_cons_of_neg (by simp [front])]
    _ = item.rdropWhile isBlank := by
        rw [List.rdropWhile, List.reverse_append, List.dropWhile_append_of_pos, List.rdropWhile]
        exact fun c member => behind c (List.mem_reverse.mp member)
    _ = item := whole

theorem isItem_trimChars (clear : ',' ∉ chars) (visible : trimChars chars ≠ []) :
    IsItem (trimChars chars) where
  nonempty := visible
  clear member := by
    obtain ⟨left, right, -, -, split⟩ := exists_eq_append_trimChars chars
    refine clear ?_
    rw [split]
    exact List.mem_append_left _ (List.mem_append_right _ member)
  first c isFirst := by
    obtain ⟨rest, split⟩ := List.head?_eq_some_iff.mp isFirst
    obtain ⟨blanks, whole⟩ : trimChars chars <+: chars.dropWhile isBlank :=
      List.rdropWhile_prefix isBlank _
    have visibleFirst := List.head?_dropWhile_not isBlank chars
    rwa [← whole, split] at visibleFirst
  last c isLast := by
    rw [trimChars, trimEnd_eq_rdropWhile] at visible isLast
    rw [List.getLast?_eq_some_getLast visible, Option.mem_some] at isLast
    exact isLast ▸ Bool.eq_false_iff.mpr (List.rdropWhile_last_not _ _ visible)

/-- What is read from any parts is spread over them. -/
theorem spread_filter_map_trimChars (parts : List (List Char)) :
    Spread ((parts.map trimChars).filter (!·.isEmpty)) parts := by
  induction parts with
  | nil => exact .done
  | cons part parts ih =>
      by_cases blank : trimChars part = []
      · rw [List.map_cons, List.filter_cons_of_neg (by simp [blank])]
        exact .blank (trimChars_eq_nil_iff.mp blank) ih
      · obtain ⟨left, right, before, behind, split⟩ := exists_eq_append_trimChars part
        rw [List.map_cons, List.filter_cons_of_pos (by simp [blank])]
        nth_rewrite 2 [split]
        exact .item before behind ih

/-- What is read from parts over which items are spread is the items. -/
theorem Spread.filter_map_trimChars (spread : Spread items parts)
    (proper : ∀ item ∈ items, IsItem item) :
    (parts.map trimChars).filter (!·.isEmpty) = items := by
  induction spread with
  | done => rfl
  | blank blank _ ih =>
      rw [List.map_cons, trimChars_eq_nil_iff.mpr blank, List.filter_cons_of_neg (by simp)]
      exact ih proper
  | @item items parts left item right before behind _ ih =>
      rw [List.forall_mem_cons] at proper
      rw [List.map_cons, proper.1.trimChars_append before behind,
        List.filter_cons_of_pos (by simp [proper.1.nonempty]), ih proper.2]

theorem AllBlank.not_mem_comma (blank : AllBlank chars) : ',' ∉ chars := fun member =>
  Bool.false_ne_true (blank ',' member)

/-- No part over which items are spread holds a comma. -/
theorem Spread.not_mem_comma (spread : Spread items parts)
    (proper : ∀ item ∈ items, IsItem item) : ∀ part ∈ parts, ',' ∉ part := by
  induction spread with
  | done => exact List.forall_mem_nil _
  | blank blank _ ih => exact List.forall_mem_cons.mpr ⟨blank.not_mem_comma, ih proper⟩
  | item before behind _ ih =>
      rw [List.forall_mem_cons] at proper
      refine List.forall_mem_cons.mpr ⟨?_, ih proper.2⟩
      simp [before.not_mem_comma, behind.not_mem_comma, proper.1.clear]

theorem spread_self (items : List (List Char)) : Spread items items := by
  have bare : AllBlank [] := List.forall_mem_nil _
  induction items with
  | nil => exact .done
  | cons item items ih =>
      have alone : Spread (item :: items) (([] ++ item ++ []) :: items) := .item bare bare ih
      rwa [List.nil_append, List.append_nil] at alone

theorem commaList_eq_iff {text : String} {names : List String} :
    commaList (some text) = names ↔ commaItems text.toList = names.map String.toList := by
  rw [commaList]
  constructor
  · rintro rfl
    simp [Function.comp_def]
  · intro same
    simp [same, Function.comp_def]

/-- A text lists some items exactly if the items can be listed and are spread over its parts. -/
theorem commaItems_eq_iff : commaItems chars = items ↔
    (∀ item ∈ items, IsItem item) ∧
      ∃ parts, Spread items parts ∧ chars = [','].intercalate parts := by
  constructor
  · rintro rfl
    refine ⟨fun item member => ?_, pieces ',' chars, spread_filter_map_trimChars _, ?_⟩
    · obtain ⟨trimmed, visible⟩ := List.mem_filter.mp member
      obtain ⟨piece, inside, rfl⟩ := List.mem_map.mp trimmed
      exact isItem_trimChars (not_mem_of_mem_pieces inside) (by simpa using visible)
    · rw [pieces_eq_splitOn, List.intercalate_splitOn]
  · rintro ⟨proper, parts, spread, rfl⟩
    cases parts with
    | nil =>
        cases spread
        rfl
    | cons part parts =>
        rw [commaItems, pieces_eq_splitOn,
          List.splitOn_intercalate ',' (spread.not_mem_comma proper) (List.cons_ne_nil _ _)]
        exact spread.filter_map_trimChars proper

/-- A text lists some names exactly if they are written in it. -/
theorem commaList_eq_iff_spread {text : String} {names : List String} :
    commaList (some text) = names ↔ (∀ name ∈ names, IsItem name.toList) ∧
      ∃ parts, Spread (names.map String.toList) parts ∧
        text.toList = [','].intercalate parts := by
  rw [commaList_eq_iff, commaItems_eq_iff, List.forall_mem_map]

theorem isItem_of_mem_commaList {text? : Option String} {name : String}
    (listed : name ∈ commaList text?) : IsItem name.toList := by
  cases text? with
  | none => exact (List.not_mem_nil listed).elim
  | some text => exact (commaList_eq_iff_spread.mp rfl).1 name listed

theorem isItem_defaultBases : ∀ base ∈ Settings.defaultConventions.bases, IsItem base.toList := by
  decide

/-- No environment takes all bases away or gives one without a name. -/
theorem isItem_bases (environment : Environment) :
    Settings.basesOf environment ≠ [] ∧
      ∀ base ∈ Settings.basesOf environment, IsItem base.toList := by
  rw [Settings.basesOf]
  split
  · exact ⟨List.cons_ne_nil _ _, isItem_defaultBases⟩
  · rename_i names some_listed
    exact ⟨some_listed, fun base member => isItem_of_mem_commaList member⟩

/-- **Comma lists are written and read back.** A text lists some names exactly if they are written
in it: none of them is empty, holds a comma or has a blank at an end, and the parts between the
commas are these names in order, with any blanks around them and any blank parts between them. So
names with single commas between them are read as they are, and what was read from a text is read
again from each text that it is written in. The bases in the settings are never without a name, and
each of them is a name, in any environment. -/
theorem commaList_roundTrip :
    (∀ text names, commaList (some text) = names ↔ (∀ name ∈ names, IsItem name.toList) ∧
      ∃ parts, Spread (names.map String.toList) parts ∧ text.toList = [','].intercalate parts) ∧
    (∀ names, (∀ name ∈ names, IsItem name.toList) →
      commaList (some (",".intercalate names)) = names) ∧
    (∀ text written parts, Spread ((commaList (some text)).map String.toList) parts →
      written.toList = [','].intercalate parts →
      commaList (some written) = commaList (some text)) ∧
    ∀ environment, let bases := (Settings.ofEnvironment environment).conventions.bases
      bases ≠ [] ∧ ∀ base ∈ bases, IsItem base.toList := by
  refine ⟨fun text names => commaList_eq_iff_spread, fun names proper => ?_,
    fun text written parts spread split => commaList_eq_iff_spread.mpr
      ⟨fun name => isItem_of_mem_commaList, parts, spread, split⟩, isItem_bases⟩
  refine commaList_eq_iff_spread.mpr ⟨proper, _, spread_self _, ?_⟩
  rw [String.toList_intercalate]
  rfl

/-- Two names, one of them with a blank inside, are listed with other blanks and blank parts. -/
theorem commaList_spacedNames :
    let names := ["Base", "Pure Base"]
    commaList (some (",".intercalate names)) = names ∧
      commaList (some " Base ,\t,,Pure Base\u2003") = names := by
  intro names
  have proper : ∀ name ∈ names, IsItem name.toList := by decide
  have blanks : AllBlank [] ∧ AllBlank [' '] ∧ AllBlank ['\t'] ∧ AllBlank ['\u2003'] := by decide
  obtain ⟨none, space, tab, wide⟩ := blanks
  have spread : Spread (names.map String.toList)
      [" Base ".toList, "\t".toList, [], "Pure Base\u2003".toList] :=
    .item space space (.blank tab (.blank none (.item none wide .done)))
  exact ⟨commaList_roundTrip.2.1 names proper,
    (commaList_roundTrip.1 _ names).mpr ⟨proper, _, spread, by decide⟩⟩

end StaleRead.Text.Blank
