import Mathlib.Data.List.Basic
import StaleRead.Proofs.Lookup
import StaleRead.Text.Glyph

/-! # Glyphs replaced at once

Glyphs are replaced one after the other, each in what the replacements before it left. As no text
that stands in for a glyph holds a glyph, this is the same as putting what stands in for it in
the place of each character (`Glyph.replaceAll_eq_flatMap`). So the order of the replacements
does not matter, and a text in which glyphs are replaced holds none and stays as it is
(`Glyph.forTerminal_false_eq`).
-/

namespace StaleRead.Text.Glyph

variable {glyphs : List (Char × String)}

/-- What stands in for a character: a glyph has its text, and any other character is kept. -/
def standIn (glyphs : List (Char × String)) (c : Char) : List Char :=
  match glyphs.lookup c with
  | some text => text.toList
  | none => [c]

/-- No character of some text is one of the glyphs. -/
def Plain (glyphs : List (Char × String)) (chars : List Char) : Prop :=
  ∀ entry ∈ glyphs, entry.1 ∉ chars

/-- No text that stands in for a glyph holds a glyph. -/
def Settled (glyphs : List (Char × String)) : Prop :=
  ∀ entry ∈ glyphs, Plain glyphs entry.2.toList

theorem standIn_cons (glyph : Char) (text : String) (glyphs : List (Char × String)) (c : Char) :
    standIn ((glyph, text) :: glyphs) c = if c = glyph then text.toList else standIn glyphs c := by
  by_cases same : c = glyph
  · simp [standIn, same]
  · have differs : (c == glyph) = false := beq_eq_false_iff_ne.mpr same
    simp only [standIn, List.lookup_cons, differs, if_neg same]

theorem standIn_of_forall_ne {c : Char} (other : ∀ entry ∈ glyphs, entry.1 ≠ c) :
    standIn glyphs c = [c] := by
  have missing : glyphs.lookup c = none :=
    List.lookup_eq_none_iff.mpr fun entry member => bne_iff_ne.mpr (other entry member).symm
  rw [standIn, missing]

/-- Text without glyphs stands in for itself. -/
theorem Plain.flatMap_standIn {chars : List Char} (plain : Plain glyphs chars) :
    chars.flatMap (standIn glyphs) = chars := by
  calc chars.flatMap (standIn glyphs)
      = chars.flatMap fun c => [c] := List.flatMap_congr fun c member =>
          standIn_of_forall_ne fun entry listed same => plain entry listed (same ▸ member)
    _ = chars := List.flatMap_singleton' chars

/-- What stands in for a character holds no glyph. -/
theorem Settled.plain_standIn (settled : Settled glyphs) (c : Char) :
    Plain glyphs (standIn glyphs c) := by
  intro entry listed member
  rw [standIn] at member
  cases found : glyphs.lookup c with
  | none =>
      rw [found, List.mem_singleton] at member
      exact bne_iff_ne.mp (List.lookup_eq_none_iff.mp found entry listed) member.symm
  | some text =>
      rw [found] at member
      obtain ⟨before, behind, split, -⟩ := List.lookup_eq_some_iff.mp found
      exact settled (c, text) (split ▸ List.mem_append_cons_self) entry listed member

theorem Settled.plain_flatMap (settled : Settled glyphs) (chars : List Char) :
    Plain glyphs (chars.flatMap (standIn glyphs)) := by
  intro entry listed member
  obtain ⟨c, -, inside⟩ := List.mem_flatMap.mp member
  exact settled.plain_standIn c entry listed inside

theorem Settled.of_cons {entry : Char × String} (settled : Settled (entry :: glyphs)) :
    Settled glyphs := fun other member inner listed =>
  settled other (List.mem_cons_of_mem _ member) inner (List.mem_cons_of_mem _ listed)

/-- Replacing settled glyphs one after the other replaces them at once: the text that the first
glyph leaves has no glyph that a later replacement could find. -/
theorem replaceAll_eq_flatMap (settled : Settled glyphs) (chars : List Char) :
    replaceAll glyphs chars = chars.flatMap (standIn glyphs) := by
  induction glyphs generalizing chars with
  | nil => exact (Plain.flatMap_standIn (List.forall_mem_nil _)).symm
  | cons entry glyphs ih =>
      obtain ⟨glyph, text⟩ := entry
      have plain : Plain glyphs text.toList := fun other member =>
        settled _ List.mem_cons_self other (List.mem_cons_of_mem _ member)
      calc replaceAll ((glyph, text) :: glyphs) chars
          = (replace glyph text.toList chars).flatMap (standIn glyphs) := ih settled.of_cons _
        _ = chars.flatMap (standIn ((glyph, text) :: glyphs)) := by
            rw [replace, List.flatMap_assoc]
            refine List.flatMap_congr fun c _ => ?_
            rw [standIn_cons]
            split
            · exact plain.flatMap_standIn
            · exact List.flatMap_singleton (standIn glyphs) c

theorem Settled.of_perm {others : List (Char × String)} (settled : Settled glyphs)
    (perm : glyphs.Perm others) : Settled others := fun entry member inner listed =>
  settled entry (perm.mem_iff.mpr member) inner (perm.mem_iff.mpr listed)

/-- The order in which distinct settled glyphs are replaced does not matter. -/
theorem replaceAll_eq_of_perm {others : List (Char × String)} (settled : Settled glyphs)
    (distinct : (glyphs.map Prod.fst).Nodup) (perm : glyphs.Perm others) (chars : List Char) :
    replaceAll glyphs chars = replaceAll others chars := by
  rw [replaceAll_eq_flatMap settled, replaceAll_eq_flatMap (settled.of_perm perm)]
  refine List.flatMap_congr fun c _ => ?_
  rw [standIn, standIn, lookup_eq_of_perm distinct perm]

theorem settled_replacements : Settled replacements := by
  unfold Settled Plain
  decide

theorem distinct_replacements : (replacements.map Prod.fst).Nodup := by
  decide

theorem toList_forTerminal_false (text : String) :
    (forTerminal false text).toList = text.toList.flatMap (standIn replacements) := by
  rw [forTerminal, if_neg Bool.false_ne_true, toAscii, String.toList_ofList,
    replaceAll_eq_flatMap settled_replacements]

/-- **A terminal without UTF-8 shows one substitution.** Its text has, in the place of each
character, what stands in for it. The glyphs may be replaced in any order. What is shown holds no
glyph and is shown as it is, texts are shown one after the other, and a text is shown as it is
exactly if it holds no glyph. -/
theorem forTerminal_false_eq (text : String) :
    forTerminal false text = String.ofList (text.toList.flatMap (standIn replacements)) ∧
    (∀ glyphs, glyphs.Perm replacements →
      String.ofList (replaceAll glyphs text.toList) = forTerminal false text) ∧
    Plain replacements (forTerminal false text).toList ∧
    forTerminal false (forTerminal false text) = forTerminal false text ∧
    (∀ other, forTerminal false (text ++ other) =
      forTerminal false text ++ forTerminal false other) ∧
    (forTerminal false text = text ↔ Plain replacements text.toList) := by
  have plain : Plain replacements (forTerminal false text).toList :=
    toList_forTerminal_false text ▸ settled_replacements.plain_flatMap text.toList
  have keeps : ∀ text, Plain replacements text.toList → forTerminal false text = text := by
    intro text plain
    rw [← String.toList_inj, toList_forTerminal_false, plain.flatMap_standIn]
  refine ⟨?_, fun glyphs perm => ?_, plain, keeps _ plain, fun other => ?_,
    fun same => same ▸ plain, keeps text⟩
  · rw [← toList_forTerminal_false, String.ofList_toList]
  · rw [← replaceAll_eq_of_perm settled_replacements distinct_replacements perm.symm]
    rfl
  · rw [← String.toList_inj]
    simp only [toList_forTerminal_false, String.toList_append, List.flatMap_append]

/-- The order of the glyphs turned round, on a text with two of them. -/
theorem forTerminal_false_backwards :
    String.ofList (replaceAll replacements.reverse "a → b ✓".toList) = "a -> b [OK]" :=
  ((forTerminal_false_eq "a → b ✓").2.1 _ (List.reverse_perm _)).trans (by decide)

end StaleRead.Text.Glyph
