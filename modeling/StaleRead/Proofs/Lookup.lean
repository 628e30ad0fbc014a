import Mathlib.Data.List.Nodup

/-! # Entries with distinct keys

Where no key is listed twice, looking a key up finds exactly the values that are listed with it, so
the order of the entries does not matter.
-/

namespace StaleRead

variable {Key Value : Type} [BEq Key] [LawfulBEq Key] {entries others : List (Key × Value)}
  {key : Key} {value : Value}

theorem lookup_eq_some_iff_mem (distinct : (entries.map Prod.fst).Nodup) :
    entries.lookup key = some value ↔ (key, value) ∈ entries := by
  induction entries with
  | nil => simp
  | cons first entries ih =>
      obtain ⟨other, inner⟩ := first
      rw [List.map_cons, List.nodup_cons] at distinct
      by_cases same : key = other
      · subst same
        have alone : (key, value) ∉ entries := fun member =>
          distinct.1 (List.mem_map.mpr ⟨_, member, rfl⟩)
        simp [alone, eq_comm]
      · have differs : (key == other) = false := beq_eq_false_iff_ne.mpr same
        simp [List.lookup_cons, differs, same, ih distinct.2]

theorem lookup_eq_of_perm (distinct : (entries.map Prod.fst).Nodup) (perm : entries.Perm others) :
    entries.lookup key = others.lookup key := by
  have otherDistinct : (others.map Prod.fst).Nodup := (perm.map Prod.fst).nodup_iff.mp distinct
  refine Option.ext fun value => ?_
  rw [lookup_eq_some_iff_mem distinct, lookup_eq_some_iff_mem otherDistinct, perm.mem_iff]

end StaleRead
