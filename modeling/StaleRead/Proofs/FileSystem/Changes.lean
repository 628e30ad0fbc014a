import StaleRead.Proofs.FileSystem.Entries

/-! # Changes keep a file system sound

A file system starts with nothing but its working directory, and it changes when directories are
made and entries are written and removed (`FileSystem.Built`). Each of these changes keeps the
names in each directory distinct and plain, so every file system that is built by them is sound
(`FileSystem.Built.proper`).
-/

namespace StaleRead

namespace Entry

/-- Whatever stood in a place, what the change puts there is sound. -/
def KeepsSound (change : Option Entry → Entry) : Prop :=
  ∀ entry? : Option Entry, (∀ entry ∈ entry?, entry.IsSound) → (change entry?).IsSound

theorem isSound_empty : IsSound (.directory []) :=
  .directory List.nodup_nil (List.forall_mem_nil _) (List.forall_mem_nil _)

theorem keepsSound_asDirectory : KeepsSound asDirectory := by
  intro entry? sound
  cases entry? with
  | none => exact isSound_empty
  | some entry =>
      cases entry with
      | directory contents => exact sound _ rfl
      | file | unreadable => exact isSound_empty

theorem isSound_of_isFile {entry : Entry} (isFile : entry.isFile = true) : entry.IsSound := by
  cases entry with
  | file bytes => exact .file bytes
  | unreadable => exact .unreadable
  | directory contents => cases isFile

theorem mem_replace {name : String} {change : Option Entry → Entry}
    {contents : List (String × Entry)} {entry : String × Entry}
    (member : entry ∈ replace name change contents) :
    entry ∈ contents ∨ ∃ old? : Option Entry, (∀ old ∈ old?, (name, old) ∈ contents) ∧
      entry = (name, change old?) := by
  induction contents with
  | nil => exact Or.inr ⟨none, nofun, List.mem_singleton.mp member⟩
  | cons first contents ih =>
      obtain ⟨other, inner⟩ := first
      rw [replace] at member
      split_ifs at member with same
      · rcases List.mem_cons.mp member with rfl | later
        · refine Or.inr ⟨some inner, fun old isOld => ?_, by rw [same]⟩
          obtain rfl := Option.some.inj isOld
          exact same ▸ List.mem_cons_self
        · exact Or.inl (List.mem_cons_of_mem _ later)
      · rcases List.mem_cons.mp member with rfl | later
        · exact Or.inl List.mem_cons_self
        · rcases ih later with kept | ⟨old?, stood, put⟩
          · exact Or.inl (List.mem_cons_of_mem _ kept)
          · exact Or.inr ⟨old?, fun old isOld => List.mem_cons_of_mem _ (stood old isOld), put⟩

theorem nodup_replace {name : String} {change : Option Entry → Entry}
    {contents : List (String × Entry)} (distinct : (contents.map Prod.fst).Nodup) :
    ((replace name change contents).map Prod.fst).Nodup := by
  induction contents with
  | nil => exact List.nodup_singleton name
  | cons first contents ih =>
      obtain ⟨other, inner⟩ := first
      rw [replace]
      split_ifs with same
      · exact distinct
      · rw [List.map_cons, List.nodup_cons] at distinct ⊢
        refine ⟨fun member => ?_, ih distinct.2⟩
        obtain ⟨entry, inside, named⟩ := List.mem_map.mp member
        rcases mem_replace inside with kept | ⟨old?, -, rfl⟩
        · exact distinct.1 (List.mem_map.mpr ⟨entry, kept, named⟩)
        · exact same named.symm

theorem IsSound.replace {name : String} {change : Option Entry → Entry}
    {contents : List (String × Entry)} (sound : IsSound (.directory contents))
    (isName : IsName name) (keeps : KeepsSound change) :
    IsSound (.directory (replace name change contents)) := by
  cases sound with
  | directory distinct names inside =>
      refine .directory (nodup_replace distinct) (fun entry member => ?_) fun entry member => ?_
      · rcases mem_replace member with kept | ⟨old?, -, rfl⟩
        · exact names entry kept
        · exact isName
      · rcases mem_replace member with kept | ⟨old?, stood, rfl⟩
        · exact inside entry kept
        · exact keeps old? fun old isOld => inside _ (stood old isOld)

theorem keepsSound_alter {change : Option Entry → Entry} (keeps : KeepsSound change)
    {names : List String} (areNames : ∀ name ∈ names, IsName name) :
    KeepsSound (alter change names) := by
  induction names with
  | nil => exact keeps
  | cons name names ih =>
      rw [List.forall_mem_cons] at areNames
      intro entry? sound
      have replaced : ∀ contents, IsSound (.directory contents) →
          IsSound (.directory (Entry.replace name (alter change names) contents)) :=
        fun _ sound => sound.replace areNames.1 (ih areNames.2)
      cases entry? with
      | none => exact replaced [] isSound_empty
      | some entry =>
          cases entry with
          | directory contents => exact replaced contents (sound _ rfl)
          | file | unreadable => exact replaced [] isSound_empty

theorem IsSound.filter {contents : List (String × Entry)} (sound : IsSound (.directory contents))
    (keep : String × Entry → Bool) : IsSound (.directory (contents.filter keep)) := by
  cases sound with
  | directory distinct names inside =>
      refine .directory (distinct.sublist (List.filter_sublist.map _)) ?_ ?_
      · exact fun entry member => names entry (List.mem_filter.mp member).1
      · exact fun entry member => inside entry (List.mem_filter.mp member).1

/-- What changes the entries of a directory and leaves their names keeps it sound. -/
theorem IsSound.map {contents : List (String × Entry)} (sound : IsSound (.directory contents))
    {change : String × Entry → String × Entry} (keepsNames : ∀ entry, (change entry).1 = entry.1)
    (inside : ∀ entry ∈ contents, IsSound (change entry).2) :
    IsSound (.directory (contents.map change)) := by
  cases sound with
  | directory distinct names =>
      have same : (contents.map change).map Prod.fst = contents.map Prod.fst := by
        rw [List.map_map]
        exact List.map_congr_left fun entry _ => keepsNames entry
      refine .directory (same ▸ distinct) ?_ (List.forall_mem_map.mpr inside)
      exact List.forall_mem_map.mpr fun entry member => keepsNames entry ▸ names entry member

theorem IsSound.without {entry : Entry} (sound : entry.IsSound) (names : List String) :
    (without names entry).IsSound := by
  induction names generalizing entry with
  | nil => cases entry <;> exact sound
  | cons name names ih =>
      cases entry with
      | file bytes => exact .file bytes
      | unreadable => exact .unreadable
      | directory contents =>
          rw [Entry.without]
          split_ifs with last
          · exact sound.filter _
          · refine sound.map (fun ⟨other, inner⟩ => ?_) fun ⟨other, inner⟩ member => ?_
            · dsimp only
              split_ifs <;> rfl
            · have kept := sound.of_mem member
              dsimp only
              split_ifs
              · exact ih kept
              · exact kept

end Entry

namespace FileSystem

/-- What can be done to a file system that has nothing but its working directory. -/
inductive Built : FileSystem → Prop
  | empty {names : List String} (areNames : ∀ name ∈ names, Entry.IsName name) :
      Built (ofWorkingDirectory names)
  | makeDirectory {files : FileSystem} {path : Path} (built : Built files)
      (plain : path.IsPlain) : Built (files.makeDirectory path)
  | put {files : FileSystem} {path : Path} {entry : Entry} (built : Built files)
      (plain : path.IsPlain) (isFile : entry.isFile = true) :
      Built (files.alter (fun _ => entry) path)
  | remove {files : FileSystem} {path : Path} (built : Built files) : Built (files.remove path)

theorem Built.write {files : FileSystem} {path : Path} (built : Built files)
    (plain : path.IsPlain) (bytes : List UInt8) : Built (files.write path bytes) :=
  have above : Path.IsPlain ⟨path.anchor, path.names.dropLast⟩ :=
    fun name member => plain name (List.dropLast_subset _ member)
  .put (.makeDirectory built above) plain rfl

/-- A sound file system whose working directory has names that entries can have. -/
structure Proper (files : FileSystem) : Prop where
  sound : files.IsSound
  here : ∀ name ∈ files.workingDirectory, Entry.IsName name

theorem isName_of_mem_resolve {workingDirectory : List String} {path : Path}
    (here : ∀ name ∈ workingDirectory, Entry.IsName name) (plain : path.IsPlain) :
    ∀ name ∈ path.resolve workingDirectory, Entry.IsName name := by
  have start : ∀ name ∈ if path.anchor = .relative then workingDirectory else [],
      Entry.IsName name := by
    split_ifs
    · exact here
    · exact List.forall_mem_nil _
  refine List.foldlRecOn path.names (motive := fun names => ∀ name ∈ names, Entry.IsName name) _
    start fun names areNames name member => ?_
  split_ifs with back
  · exact fun other kept => areNames other (List.dropLast_subset _ kept)
  · rw [List.forall_mem_append, List.forall_mem_singleton]
    exact ⟨areNames, plain name member, back⟩

theorem Proper.alter {files : FileSystem} (proper : files.Proper) {change : Option Entry → Entry}
    (keeps : Entry.KeepsSound change) {path : Path} (plain : path.IsPlain) :
    (files.alter change path).Proper where
  sound := Entry.keepsSound_alter keeps (isName_of_mem_resolve proper.here plain) _
    fun _ isRoot => Option.some.inj isRoot ▸ proper.sound
  here := proper.here

theorem Proper.makeDirectory {files : FileSystem} (proper : files.Proper) {path : Path}
    (plain : path.IsPlain) : (files.makeDirectory path).Proper := by
  refine List.foldlRecOn _ (motive := Proper) _ proper fun files proper count _ => ?_
  exact proper.alter Entry.keepsSound_asDirectory
    fun name member => plain name (List.take_subset _ _ member)

/-- Every file system that is built is sound. -/
theorem Built.proper {files : FileSystem} (built : files.Built) : files.Proper := by
  induction built with
  | empty areNames =>
      exact ⟨Entry.keepsSound_alter Entry.keepsSound_asDirectory areNames none nofun, areNames⟩
  | makeDirectory _ plain ih => exact ih.makeDirectory plain
  | put _ plain isFile ih => exact ih.alter (fun _ _ => Entry.isSound_of_isFile isFile) plain
  | remove _ ih => exact ⟨ih.sound.without _, ih.here⟩

end FileSystem

end StaleRead
