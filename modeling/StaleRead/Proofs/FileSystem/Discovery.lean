import StaleRead.Proofs.FileSystem.Changes
import StaleRead.Proofs.FileSystem.SourceFiles

/-! # What is found from some paths

A given path finds itself if it is a file that a language supports, and it finds the entries below
it if it is a directory (`Discovery.Finds`). Together the given paths find what each of them finds,
in the order of paths (`FileSystem.mem_sourceFiles_iff`, `FileSystem.ascending_sourceFiles`). So the
result is a function of the set of given paths that commutes with unions, and what is found below a
directory is found from any directory around it if no name on the way is excluded
(`FileSystem.compositional_sourceFiles`).
-/

namespace StaleRead

namespace Path

theorem append_nil (path : Path) : path.append [] = path := by
  simp only [append, List.append_nil]

theorem append_append (path : Path) (first second : List String) :
    (path.append first).append second = path.append (first ++ second) := by
  simp only [append, List.append_assoc]

theorem append_inj {path : Path} {first second : List String}
    (same : path.append first = path.append second) : first = second :=
  List.append_cancel_left (congrArg Path.names same)

/-- A path goes on below another one. -/
def StrictlyBelow (base path : Path) : Prop :=
  ∃ names, names ≠ [] ∧ path = base.append names

end Path

namespace Discovery

variable {files : FileSystem} {excluded : List String}

/-- The last name along a path ends in one of the extensions, letter by letter. -/
def EndsInExtension (path : Path) : Prop :=
  ∃ name, path.names.getLast? = some name ∧ hasExtension name = true

/-- The path stands below a directory, and no name on the way from there is excluded. -/
def Below (files : FileSystem) (excluded : List String) (directory path : Path) : Prop :=
  ∃ contents names, files.find? directory = some (.directory contents) ∧
    path = directory.append names ∧ names ≠ [] ∧ ".." ∉ names ∧ ∀ name ∈ names, name ∉ excluded

/-- What a given path finds. -/
inductive Finds (files : FileSystem) (excluded : List String) (given : Path) : Path → Prop
  | file {entry : Entry} (isEntry : files.find? given = some entry)
      (isFile : entry.isFile = true) (supported : Language.supports given = true) :
      Finds files excluded given given
  | below {path : Path} {entry : Entry} (below : Below files excluded given path)
      (isEntry : files.find? path = some entry) (ends : EndsInExtension path) :
      Finds files excluded given path

theorem counts_iff {names : List String} :
    counts excluded names = true ↔
      (∃ name, names.getLast? = some name ∧ hasExtension name = true) ∧
        ∀ name ∈ names, name ∉ excluded := by
  simp [counts, Option.any_eq_true]

theorem endsInExtension_append_iff {directory : Path} {names : List String}
    (nonempty : names ≠ []) : EndsInExtension (directory.append names) ↔
      ∃ name, names.getLast? = some name ∧ hasExtension name = true := by
  rw [EndsInExtension, Path.append, List.getLast?_append_of_ne_nil _ nonempty]

/-- What a given path finds is what the search from it lists. -/
theorem mem_fromPath_iff (sound : files.IsSound) {given path : Path} :
    path ∈ fromPath files excluded given ↔ Finds files excluded given path := by
  constructor
  · intro listed
    rw [fromPath] at listed
    split at listed
    case h_1 contents isDirectory =>
      obtain ⟨names, kept, rfl⟩ := List.mem_map.mp listed
      obtain ⟨inside, counted⟩ := List.mem_filter.mp kept
      obtain ⟨ends, clear⟩ := counts_iff.mp counted
      rw [← Entry.inside, Entry.mem_inside_iff] at inside
      obtain ⟨nonempty, target, leads⟩ := inside
      have noBack : ".." ∉ names := fun back =>
        (leads.isName (sound.of_find? isDirectory) _ back).2 rfl
      exact .below ⟨contents, names, isDirectory, rfl, nonempty, noBack, clear⟩
        ((FileSystem.find?_append_eq_some_iff sound isDirectory noBack).mpr leads)
        ((endsInExtension_append_iff nonempty).mpr ends)
    case h_2 entry noDirectory isEntry =>
      rw [List.mem_ite_nil_right, List.mem_singleton] at listed
      obtain ⟨supported, rfl⟩ := listed
      exact .file isEntry (Entry.isFile_iff.mpr noDirectory) supported
    case h_3 => cases listed
  · intro finds
    cases finds with
    | @file entry isEntry isFile supported =>
        cases entry with
        | directory contents => cases isFile
        | file | unreadable => simp [fromPath, isEntry, supported]
    | below below isEntry ends =>
        obtain ⟨contents, names, isDirectory, rfl, nonempty, noBack, clear⟩ := below
        have leads := (FileSystem.find?_append_eq_some_iff sound isDirectory noBack).mp isEntry
        have inside : names ∈ Entry.insideAll contents := by
          rw [← Entry.inside, Entry.mem_inside_iff]
          exact ⟨nonempty, _, leads⟩
        have counted := counts_iff.mpr ⟨(endsInExtension_append_iff nonempty).mp ends, clear⟩
        rw [fromPath, isDirectory]
        exact List.mem_map_of_mem (List.mem_filter.mpr ⟨inside, counted⟩)

/-- What is found is an entry: the given one, or one below it. -/
theorem finds_iff {given path : Path} :
    Finds files excluded given path ↔ ∃ entry, files.find? path = some entry ∧
      (path = given ∧ entry.isFile = true ∧ Language.supports path = true ∨
        Below files excluded given path ∧ EndsInExtension path) := by
  constructor
  · rintro (⟨isEntry, isFile, supported⟩ | ⟨below, isEntry, ends⟩)
    · exact ⟨_, isEntry, Or.inl ⟨rfl, isFile, supported⟩⟩
    · exact ⟨_, isEntry, Or.inr ⟨below, ends⟩⟩
  · rintro ⟨entry, isEntry, ⟨rfl, isFile, supported⟩ | ⟨below, ends⟩⟩
    · exact .file isEntry isFile supported
    · exact .below below isEntry ends

theorem Finds.isPlain (sound : files.IsSound) {given path : Path} (plain : given.IsPlain)
    (finds : Finds files excluded given path) : path.IsPlain := by
  cases finds with
  | file => exact plain
  | below below isEntry ends =>
      obtain ⟨contents, names, isDirectory, rfl, -, noBack, -⟩ := below
      have leads := (FileSystem.find?_append_eq_some_iff sound isDirectory noBack).mp isEntry
      intro name member
      rcases List.mem_append.mp member with upper | lower
      · exact plain name upper
      · exact (leads.isName (sound.of_find? isDirectory) name lower).1

theorem Below.of_subset {more : List String} (fewer : excluded ⊆ more) {directory path : Path}
    (below : Below files more directory path) : Below files excluded directory path := by
  obtain ⟨contents, names, isDirectory, split, nonempty, noBack, clear⟩ := below
  exact ⟨contents, names, isDirectory, split, nonempty, noBack,
    fun name member listed => clear name member (fewer listed)⟩

theorem Finds.of_subset {more : List String} (fewer : excluded ⊆ more) {given path : Path}
    (finds : Finds files more given path) : Finds files excluded given path := by
  cases finds with
  | file isEntry isFile supported => exact .file isEntry isFile supported
  | below below isEntry ends => exact .below (below.of_subset fewer) isEntry ends

theorem effectiveExclusions_subset {more : List String} (fewer : excluded ⊆ more)
    (includeVendored : Bool) :
    effectiveExclusions excluded includeVendored ⊆ effectiveExclusions more includeVendored := by
  cases includeVendored with
  | false => exact fewer
  | true => exact List.filter_subset _ fewer

theorem effectiveExclusions_true_subset (excluded : List String) :
    effectiveExclusions excluded true ⊆ effectiveExclusions excluded false :=
  List.filter_subset_self _

/-- Below a directory that is reached from another one without excluded names, both find the
same. -/
theorem finds_append_iff {directory path : Path} {names : List String}
    {contents inner : List (String × Entry)}
    (isDirectory : files.find? directory = some (.directory contents))
    (isInner : files.find? (directory.append names) = some (.directory inner))
    (noBack : ".." ∉ names) (clear : ∀ name ∈ names, name ∉ excluded) :
    Finds files excluded (directory.append names) path ↔
      Finds files excluded directory path ∧ (directory.append names).StrictlyBelow path := by
  constructor
  · intro finds
    cases finds with
    | file isEntry isFile supported =>
        cases isInner.symm.trans isEntry
        cases isFile
    | below below isEntry ends =>
        obtain ⟨-, further, -, rfl, nonempty, furtherBack, furtherClear⟩ := below
        refine ⟨.below ⟨contents, names ++ further, isDirectory, Path.append_append .., ?_, ?_, ?_⟩
          isEntry ends, further, nonempty, rfl⟩
        · exact List.append_ne_nil_of_right_ne_nil _ nonempty
        · exact List.mem_append.not.mpr (not_or.mpr ⟨noBack, furtherBack⟩)
        · exact List.forall_mem_append.mpr ⟨clear, furtherClear⟩
  · rintro ⟨finds, further, nonempty, split⟩
    cases finds with
    | file isEntry isFile supported =>
        cases isDirectory.symm.trans isEntry
        cases isFile
    | below below isEntry ends =>
        -- The names from the outer directory are those to the inner one and the further ones.
        obtain ⟨-, all, -, rfl, -, allBack, allClear⟩ := below
        obtain rfl := Path.append_inj (split.trans (Path.append_append ..))
        rw [List.mem_append, not_or] at allBack
        rw [List.forall_mem_append] at allClear
        exact .below ⟨inner, further, isInner, split, nonempty, allBack.2, allClear.2⟩ isEntry ends

end Discovery

namespace FileSystem

open Discovery

variable {files : FileSystem}

theorem mem_sourceFiles_iff (sound : files.IsSound) {given : List Path} {excluded : List String}
    {includeVendored : Bool} {path : Path} :
    path ∈ files.sourceFiles given excluded includeVendored ↔
      ∃ start ∈ given, Finds files (effectiveExclusions excluded includeVendored) start path := by
  rw [sourceFiles, mem_sortDistinct, List.mem_flatMap]
  exact exists_congr fun start => and_congr_right fun _ => mem_fromPath_iff sound

theorem ascending_sourceFiles (sound : files.IsSound) {given : List Path}
    (plain : ∀ path ∈ given, path.IsPlain) (excluded : List String) (includeVendored : Bool) :
    Path.Ascending (files.sourceFiles given excluded includeVendored) := by
  refine Path.ascending_sortDistinct fun path member => ?_
  obtain ⟨start, isGiven, found⟩ := List.mem_flatMap.mp member
  exact ((mem_fromPath_iff sound).mp found).isPlain sound (plain start isGiven)

/-- What makes discovery a function of sets. The result ascends strictly, so it is known by the
paths in it. Given paths find together what any parts of them find apart, so neither their order
nor their repetitions matter. More exclusions find no more, and searching vendored directories
finds no less. A supported file that is given is found. What is found strictly below a directory
that is reached without excluded names is what is found from there. -/
structure Compositional (files : FileSystem) (excluded : List String) (includeVendored : Bool) :
    Prop where
  ascending : ∀ given, (∀ path ∈ given, path.IsPlain) →
    Path.Ascending (files.sourceFiles given excluded includeVendored)
  union : ∀ (parts : List (List Path)) path,
    path ∈ files.sourceFiles parts.flatten excluded includeVendored ↔
      ∃ given ∈ parts, path ∈ files.sourceFiles given excluded includeVendored
  sameSet : ∀ given other, (∀ path ∈ given, path.IsPlain) → (∀ path, path ∈ given ↔ path ∈ other) →
    files.sourceFiles given excluded includeVendored =
      files.sourceFiles other excluded includeVendored
  exclusions : ∀ given more, excluded ⊆ more →
    files.sourceFiles given more includeVendored ⊆
      files.sourceFiles given excluded includeVendored
  vendored : ∀ given,
    files.sourceFiles given excluded false ⊆ files.sourceFiles given excluded true
  named : ∀ given, ∀ path ∈ given, ∀ entry, files.find? path = some entry → entry.isFile = true →
    Language.supports path = true → path ∈ files.sourceFiles given excluded includeVendored
  nested : ∀ directory names contents inner,
    files.find? directory = some (.directory contents) →
    files.find? (directory.append names) = some (.directory inner) → ".." ∉ names →
    (∀ name ∈ names, name ∉ effectiveExclusions excluded includeVendored) → ∀ path,
    (path ∈ files.sourceFiles [directory.append names] excluded includeVendored ↔
      path ∈ files.sourceFiles [directory] excluded includeVendored ∧
        (directory.append names).StrictlyBelow path)

/-- **Discovery is a function of the set of given paths**, in any sound file system. -/
theorem compositional_sourceFiles (sound : files.IsSound) (excluded : List String)
    (includeVendored : Bool) : files.Compositional excluded includeVendored where
  ascending _ plain := ascending_sourceFiles sound plain excluded includeVendored
  union parts path := by
    simp only [mem_sourceFiles_iff sound, List.mem_flatten]
    constructor
    · rintro ⟨start, ⟨given, part, isGiven⟩, finds⟩
      exact ⟨given, part, start, isGiven, finds⟩
    · rintro ⟨given, part, start, isGiven, finds⟩
      exact ⟨start, ⟨given, part, isGiven⟩, finds⟩
  sameSet given other plain same := by
    have otherPlain : ∀ path ∈ other, path.IsPlain :=
      fun path member => plain path ((same path).mpr member)
    refine (ascending_sourceFiles sound plain _ _).eq_of_mem_iff
      (ascending_sourceFiles sound otherPlain _ _) fun path => ?_
    simp only [mem_sourceFiles_iff sound, same]
  exclusions given more fewer path found := by
    rw [mem_sourceFiles_iff sound] at found ⊢
    obtain ⟨start, isGiven, finds⟩ := found
    exact ⟨start, isGiven, finds.of_subset (effectiveExclusions_subset fewer includeVendored)⟩
  vendored given path found := by
    rw [mem_sourceFiles_iff sound] at found ⊢
    obtain ⟨start, isGiven, finds⟩ := found
    exact ⟨start, isGiven, finds.of_subset (effectiveExclusions_true_subset excluded)⟩
  named given path isGiven entry isEntry isFile supported :=
    (mem_sourceFiles_iff sound).mpr ⟨path, isGiven, .file isEntry isFile supported⟩
  nested directory names contents inner isDirectory isInner noBack clear path := by
    simp only [mem_sourceFiles_iff sound, List.mem_singleton, exists_eq_left]
    exact finds_append_iff isDirectory isInner noBack clear

/-- The names along the paths of files in a directory: a language supports some of them, and other
entries look like them. -/
def sampleNames : List (List String) :=
  [["d", "App.jsx"], ["d", "App.JSX"], ["d", ".js"], ["d", "x.ts", "y.tsx"], ["d", "dist", "z.js"]]

/-- The file system with these files. -/
def sampleFiles : FileSystem :=
  sampleNames.foldl (fun files names => files.write ⟨.relative, names⟩ []) (ofWorkingDirectory [])

theorem isSound_sampleFiles : sampleFiles.IsSound := by
  have built : sampleFiles.Built := by
    refine List.foldlRecOn _ (motive := Built) _ (.empty (List.forall_mem_nil _))
      fun files built names member => ?_
    have plain : ∀ names ∈ sampleNames, Path.IsPlain ⟨.relative, names⟩ := by decide
    exact built.write (plain names member) []
  exact built.proper.sound

/-- A directory that is given again, or inside another one that is given, changes nothing, and what
it finds is found from the other one. -/
theorem sourceFiles_sampleFiles :
    let directory : Path := ⟨.relative, ["d"]⟩
    let inner := directory.append ["x.ts"]
    sampleFiles.IsSound ∧
      (sampleFiles.sourceFiles [directory, inner, directory] ["dist"] false =
        sampleFiles.sourceFiles [inner, directory] ["dist"] false) ∧
      inner.append ["y.tsx"] ∈ sampleFiles.sourceFiles [directory] ["dist"] false := by
  intro directory inner
  have compositional := compositional_sourceFiles isSound_sampleFiles ["dist"] false
  refine ⟨isSound_sampleFiles, compositional.sameSet _ _ (by decide) fun path => ?_, ?_⟩
  · simp only [List.mem_cons, List.not_mem_nil, or_false]
    tauto
  · have found : inner.append ["y.tsx"] ∈ sampleFiles.sourceFiles [inner] ["dist"] false := by
      decide +kernel
    exact ((compositional.nested directory ["x.ts"] _ _ rfl rfl (by decide) (by decide) _).mp
      found).1

end FileSystem

end StaleRead
