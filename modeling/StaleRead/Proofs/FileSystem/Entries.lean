import StaleRead.FileSystem.Basic
import StaleRead.Proofs.Lookup
import StaleRead.Proofs.Path

/-! # What lies below an entry

Names lead from a directory down to the entries inside it (`Entry.Leads`), and the names that
are listed inside an entry are those that lead somewhere (`Entry.mem_inside_iff`). In a sound
tree the names in a directory are distinct and each of them stands for itself. There, looking up
names without `..` arrives where they lead (`Entry.follow_eq_some_iff`), and a path that goes on
below a directory is looked up from the directory on (`FileSystem.find?_append_eq_some_iff`).
-/

namespace StaleRead

namespace Entry

/-- Whether an entry is a file, readable or not. -/
def isFile : Entry → Bool
  | .directory _ => false
  | _ => true

/-- The names lead from an entry down to another. -/
inductive Leads : Entry → List String → Entry → Prop
  | here {entry : Entry} : Leads entry [] entry
  | down {contents : List (String × Entry)} {name : String} {inner target : Entry}
      {names : List String} (member : (name, inner) ∈ contents)
      (leads : Leads inner names target) : Leads (.directory contents) (name :: names) target

/-- A name that an entry can have: it is plain, and it does not lead back. -/
def IsName (name : String) : Prop :=
  Path.IsPlainName name ∧ name ≠ ".."

instance (name : String) : Decidable (IsName name) :=
  inferInstanceAs (Decidable (_ ∧ _))

/-- In each directory the entries have distinct names. -/
inductive IsSound : Entry → Prop
  | file (bytes : List UInt8) : IsSound (.file bytes)
  | unreadable : IsSound .unreadable
  | directory {contents : List (String × Entry)} (distinct : (contents.map Prod.fst).Nodup)
      (names : ∀ entry ∈ contents, IsName entry.1)
      (inside : ∀ entry ∈ contents, IsSound entry.2) : IsSound (.directory contents)

theorem isFile_iff {entry : Entry} :
    entry.isFile = true ↔ ∀ contents, entry ≠ .directory contents := by
  cases entry <;> simp [isFile]

theorem leads_nil_iff {entry target : Entry} : Leads entry [] target ↔ target = entry := by
  constructor
  · rintro ⟨⟩
    rfl
  · rintro rfl
    exact .here

theorem leads_cons_iff {entry target : Entry} {name : String} {names : List String} :
    Leads entry (name :: names) target ↔ ∃ contents inner, entry = .directory contents ∧
      (name, inner) ∈ contents ∧ Leads inner names target := by
  constructor
  · rintro ⟨⟩
    exact ⟨_, _, rfl, ‹_›, ‹_›⟩
  · rintro ⟨contents, inner, rfl, member, leads⟩
    exact .down member leads

theorem mem_insideAll_iff {contents : List (String × Entry)} {names : List String} :
    names ∈ insideAll contents ↔ ∃ name inner, (name, inner) ∈ contents ∧
      ∃ rest, names = name :: rest ∧ (rest = [] ∨ rest ∈ inner.inside) := by
  induction contents with
  | nil => simp [insideAll]
  | cons first contents ih =>
      obtain ⟨name, inner⟩ := first
      rw [insideAll, List.mem_cons, List.mem_append, List.mem_map, ih]
      simp only [List.mem_cons, Prod.mk.injEq]
      constructor
      · rintro (rfl | ⟨rest, within, rfl⟩ | ⟨other, entry, member, inside⟩)
        · exact ⟨name, inner, Or.inl ⟨rfl, rfl⟩, [], rfl, Or.inl rfl⟩
        · exact ⟨name, inner, Or.inl ⟨rfl, rfl⟩, rest, rfl, Or.inr within⟩
        · exact ⟨other, entry, Or.inr member, inside⟩
      · rintro ⟨other, entry, ⟨rfl, rfl⟩ | member, rest, rfl, here | within⟩
        · exact Or.inl (by rw [here])
        · exact Or.inr (Or.inl ⟨rest, within, rfl⟩)
        · exact Or.inr (Or.inr ⟨other, entry, member, rest, rfl, Or.inl here⟩)
        · exact Or.inr (Or.inr ⟨other, entry, member, rest, rfl, Or.inr within⟩)

/-- The names that are listed inside an entry are those that lead somewhere from it. -/
theorem mem_inside_iff {entry : Entry} {names : List String} :
    names ∈ entry.inside ↔ names ≠ [] ∧ ∃ target, Leads entry names target := by
  -- The names get shorter on the way down, so the induction is on them and not on the entry.
  induction names generalizing entry with
  | nil => cases entry <;> simp [inside, mem_insideAll_iff]
  | cons name names ih =>
      simp only [ne_eq, reduceCtorEq, not_false_eq_true, true_and, leads_cons_iff]
      cases entry with
      | file bytes => simp [inside]
      | unreadable => simp [inside]
      | directory contents =>
          rw [inside, mem_insideAll_iff]
          constructor
          · rintro ⟨_, inner, member, rest, same, here | within⟩
            · cases same
              exact ⟨inner, contents, inner, rfl, member, by rw [here]; exact .here⟩
            · cases same
              obtain ⟨-, target, leads⟩ := ih.mp within
              exact ⟨target, contents, inner, rfl, member, leads⟩
          · rintro ⟨target, _, inner, same, member, leads⟩
            cases same
            refine ⟨name, inner, member, names, rfl, ?_⟩
            by_cases last : names = []
            · exact Or.inl last
            · exact Or.inr (ih.mpr ⟨last, target, leads⟩)

theorem IsSound.of_mem {contents : List (String × Entry)} {entry : String × Entry}
    (sound : IsSound (.directory contents)) (member : entry ∈ contents) : IsSound entry.2 := by
  cases sound with
  | directory distinct names inside => exact inside entry member

theorem IsSound.isName_of_mem {contents : List (String × Entry)} {entry : String × Entry}
    (sound : IsSound (.directory contents)) (member : entry ∈ contents) : IsName entry.1 := by
  cases sound with
  | directory distinct names inside => exact names entry member

theorem IsSound.lookup_iff {contents : List (String × Entry)} {name : String} {entry : Entry}
    (sound : IsSound (.directory contents)) :
    contents.lookup name = some entry ↔ (name, entry) ∈ contents := by
  cases sound with
  | directory distinct names inside => exact lookup_eq_some_iff_mem distinct

theorem Leads.isName {entry target : Entry} {names : List String}
    (leads : Leads entry names target) (sound : entry.IsSound) : ∀ name ∈ names, IsName name := by
  induction leads with
  | here => exact fun _ member => (List.not_mem_nil member).elim
  | down member _ ih =>
      rw [List.forall_mem_cons]
      exact ⟨sound.isName_of_mem member, ih (sound.of_mem member)⟩

theorem follow_down {contents : List (String × Entry)} {passed : List Entry} {name : String}
    (names : List String) (noBack : name ≠ "..") :
    follow passed (.directory contents) (name :: names) =
      (contents.lookup name).bind fun entry =>
        follow (.directory contents :: passed) entry names := by
  cases passed <;> cases found : contents.lookup name <;> simp [follow, noBack, found]

/-- Looking up names that do not lead back arrives where the names lead. -/
theorem follow_eq_some_iff {entry target : Entry} {names : List String} (passed : List Entry)
    (sound : entry.IsSound) (noBack : ".." ∉ names) :
    follow passed entry names = some target ↔ Leads entry names target := by
  induction names generalizing entry passed with
  | nil => rw [follow, Option.some.injEq, leads_nil_iff, eq_comm]
  | cons name names ih =>
      rw [List.mem_cons, not_or] at noBack
      rw [leads_cons_iff]
      cases entry with
      | file bytes => simp [follow]
      | unreadable => simp [follow]
      | directory contents =>
          rw [follow_down _ (Ne.symm noBack.1), Option.bind_eq_some_iff]
          simp only [directory.injEq, exists_and_left, exists_eq_left']
          refine exists_congr fun inner => ?_
          rw [sound.lookup_iff]
          exact and_congr_right fun member => ih _ (sound.of_mem member) noBack.2

/-- Where names lead back and forth, they still lead to a sound entry. -/
theorem isSound_of_follow {entry target : Entry} {passed : List Entry} {names : List String}
    (passedSound : ∀ before ∈ passed, before.IsSound) (sound : entry.IsSound)
    (found : follow passed entry names = some target) : target.IsSound := by
  fun_induction follow passed entry names with
  | case1 => rwa [← Option.some.inj found]
  | case2 => cases found
  | case3 => cases found
  | case4 contents names ih => exact ih passedSound sound found
  | case5 contents names before passed ih =>
      rw [List.forall_mem_cons] at passedSound
      exact ih passedSound.2 passedSound.1 found
  | case6 => cases found
  | case7 passed contents name names forth inner here ih =>
      refine ih ?_ (sound.of_mem (sound.lookup_iff.mp here)) found
      exact List.forall_mem_cons.mpr ⟨sound, passedSound⟩

/-- More names are looked up from where the first ones lead. -/
theorem exists_follow_append {entry middle : Entry} {passed : List Entry} {first : List String}
    (found : follow passed entry first = some middle) :
    ∃ further, ∀ second, follow passed entry (first ++ second) = follow further middle second := by
  fun_induction follow passed entry first with
  | case1 passed entry =>
      obtain rfl := Option.some.inj found
      exact ⟨passed, fun _ => rfl⟩
  | case2 => cases found
  | case3 => cases found
  | case4 contents names ih =>
      obtain ⟨further, goesOn⟩ := ih found
      exact ⟨further, fun second => by rw [List.cons_append, follow, if_pos rfl, goesOn]⟩
  | case5 contents names before passed ih =>
      obtain ⟨further, goesOn⟩ := ih found
      exact ⟨further, fun second => by rw [List.cons_append, follow, if_pos rfl, goesOn]⟩
  | case6 => cases found
  | case7 passed contents name names forth inner here ih =>
      obtain ⟨further, goesOn⟩ := ih found
      refine ⟨further, fun second => ?_⟩
      rw [List.cons_append, follow_down _ forth, here, Option.bind_some, goesOn]

end Entry

namespace FileSystem

/-- All directories of a sound file system are sound. -/
def IsSound (files : FileSystem) : Prop :=
  files.root.IsSound

theorem IsSound.of_find? {files : FileSystem} {path : Path} {entry : Entry} (sound : files.IsSound)
    (isEntry : files.find? path = some entry) : entry.IsSound :=
  Entry.isSound_of_follow (fun _ member => (List.not_mem_nil member).elim) sound isEntry

/-- A path that goes on below an entry leads where its last names lead from the entry. -/
theorem find?_append_eq_some_iff {files : FileSystem} {path : Path} {entry target : Entry}
    {names : List String} (sound : files.IsSound) (isEntry : files.find? path = some entry)
    (noBack : ".." ∉ names) :
    files.find? (path.append names) = some target ↔ entry.Leads names target := by
  obtain ⟨further, goesOn⟩ := Entry.exists_follow_append isEntry
  have below : files.find? (path.append names) = Entry.follow further entry names := by
    rw [← goesOn, List.append_assoc]
    rfl
  rw [below, Entry.follow_eq_some_iff further (sound.of_find? isEntry) noBack]

end FileSystem

end StaleRead
