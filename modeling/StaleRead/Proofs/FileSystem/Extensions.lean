import Mathlib.Data.List.TakeWhile
import StaleRead.Proofs.FileSystem.Discovery

/-! # Extensions as they are written

Whether a language supports a file is asked about the extension of its path, in small letters.
Below a directory an entry counts if its name ends in one of the extensions, letter by letter, and
neither its extension nor its kind is asked about. The two differ in both directions. A supported
file whose extension is not written in small letters is passed over below a directory
(`FileSystem.mem_sourceFiles_iff_lower_eq`). A directory whose name ends in an extension and an
entry that has nothing else for a name are found, although neither is a supported file, and
nothing else is found that is none (`FileSystem.mem_sourceFiles_and_not_supported_iff`).
-/

namespace StaleRead

namespace Path

theorem forall_ne_dot {chars : List Char} (noDot : '.' ∉ chars) :
    ∀ c ∈ chars.reverse, (c != '.') = true := by
  intro c member
  rw [bne_iff_ne]
  rintro rfl
  exact noDot (List.mem_reverse.mp member)

theorem extensionOf_of_not_mem {name : List Char} (noDot : '.' ∉ name) : extensionOf name = [] := by
  have all := List.takeWhile_eq_self_iff.mpr (forall_ne_dot noDot)
  simp [extensionOf, all]

/-- What follows the last dot of a name is its extension, unless the dot is the first or the last
character. -/
theorem extensionOf_append (base : List Char) {rest : List Char} (noDot : '.' ∉ rest) :
    extensionOf (base ++ '.' :: rest) = if base = [] ∨ rest = [] then [] else '.' :: rest := by
  have afterDot : ((base ++ '.' :: rest).reverse.takeWhile (· != '.')).reverse = rest := by
    rw [List.reverse_append, List.reverse_cons, List.append_assoc,
      List.takeWhile_append_of_pos (forall_ne_dot noDot)]
    simp
  have short : (base ++ '.' :: rest).length ≤ rest.length + 1 ↔ base = [] := by
    rw [List.length_append, List.length_cons, ← List.length_eq_zero_iff]
    omega
  simp only [extensionOf, afterDot, short, Bool.or_eq_true, decide_eq_true_eq, List.isEmpty_iff,
    or_comm]

/-- A name with an extension ends in it, behind at least one more character. -/
theorem exists_of_extensionOf_ne_nil {name : List Char} (some : extensionOf name ≠ []) :
    ∃ base, base ≠ [] ∧ name = base ++ extensionOf name := by
  by_cases dotted : '.' ∈ name
  · -- The first dot from behind is the last one.
    obtain ⟨behind, before, split, noDot⟩ :=
      List.eq_append_cons_of_mem (List.mem_reverse.mpr dotted)
    have parts : name = before.reverse ++ '.' :: behind.reverse := by
      rw [← List.reverse_reverse name, split]
      simp
    have clear : '.' ∉ behind.reverse := mt List.mem_reverse.mp noDot
    have found := extensionOf_append before.reverse clear
    rw [← parts] at found
    split_ifs at found with none
    · exact absurd found some
    · exact ⟨before.reverse, fun empty => none (Or.inl empty), by rw [found, ← parts]⟩
  · exact absurd (extensionOf_of_not_mem dotted) some

end Path

namespace Language

/-- The text is one of the extensions. -/
def IsExtension (text : String) : Prop :=
  text ∈ extensions.map Prod.fst

instance (text : String) : Decidable (IsExtension text) :=
  inferInstanceAs (Decidable (_ ∈ _))

theorem IsExtension.exists_rest {text : String} (isExtension : IsExtension text) :
    ∃ rest, text.toList = '.' :: rest ∧ rest ≠ [] ∧ '.' ∉ rest := by
  have all : ∀ text ∈ extensions.map Prod.fst, text.toList.head? = some '.' ∧
      text.toList.tail ≠ [] ∧ '.' ∉ text.toList.tail := by decide
  obtain ⟨dot, notLast, noDot⟩ := all text isExtension
  exact ⟨_, List.eq_cons_of_mem_head? dot, notLast, noDot⟩

theorem IsExtension.lower_eq {text : String} (isExtension : IsExtension text) :
    Text.LetterCase.lower text = text := by
  have all : ∀ text ∈ extensions.map Prod.fst, Text.LetterCase.lower text = text := by
    decide +kernel
  exact all text isExtension

theorem supports_iff {path : Path} :
    supports path = true ↔ IsExtension (Text.LetterCase.lower path.extension) := by
  simp [supports, ofPath?, IsExtension, List.lookup_isSome_iff]

theorem supports_of_isExtension {path : Path} (isExtension : IsExtension path.extension) :
    supports path = true := by
  rw [supports_iff, isExtension.lower_eq]
  exact isExtension

/-- A file with nothing but an extension for a name is supported by no language. -/
theorem not_supports_of_extension_eq {path : Path} (bare : path.extension = "") :
    ¬ supports path = true := by
  rw [supports_iff, bare]
  decide

end Language

namespace Discovery

open StaleRead.Language

/-- The last name along a path is an extension and nothing else. -/
def IsBare (path : Path) : Prop :=
  ∃ name, path.names.getLast? = some name ∧ IsExtension name

theorem extension_eq_of_getLast? {path : Path} {name : String}
    (last : path.names.getLast? = some name) :
    path.extension = String.ofList (Path.extensionOf name.toList) := by
  rw [Path.extension, last]

theorem IsBare.extension_eq {path : Path} (bare : IsBare path) : path.extension = "" := by
  obtain ⟨name, last, isExtension⟩ := bare
  obtain ⟨rest, split, -, noDot⟩ := isExtension.exists_rest
  have found := Path.extensionOf_append [] noDot
  rw [if_pos (Or.inl rfl), List.nil_append] at found
  rw [extension_eq_of_getLast? last, split, found]

theorem hasExtension_iff {name : String} :
    hasExtension name = true ↔
      IsExtension name ∨ IsExtension (String.ofList (Path.extensionOf name.toList)) := by
  have ends : hasExtension name = true ↔
      ∃ extension, IsExtension extension ∧ extension.toList <:+ name.toList := by
    simp [hasExtension, IsExtension]
  rw [ends]
  constructor
  · rintro ⟨extension, isExtension, base, split⟩
    obtain ⟨rest, dotted, notLast, noDot⟩ := isExtension.exists_rest
    by_cases bare : base = []
    · rw [bare, List.nil_append, String.toList_inj] at split
      exact Or.inl (split ▸ isExtension)
    · rw [dotted] at split
      rw [← split, Path.extensionOf_append base noDot, if_neg (not_or.mpr ⟨bare, notLast⟩),
        ← dotted, String.ofList_toList]
      exact Or.inr isExtension
  · rintro (bare | isExtension)
    · exact ⟨name, bare, List.suffix_refl _⟩
    · refine ⟨_, isExtension, ?_⟩
      have some : Path.extensionOf name.toList ≠ [] := by
        intro none
        rw [none] at isExtension
        exact absurd isExtension (by decide)
      obtain ⟨base, -, split⟩ := Path.exists_of_extensionOf_ne_nil some
      rw [String.toList_ofList]
      exact ⟨base, split.symm⟩

/-- A last name ends in an extension if it is one, or if its extension is one as it is written. -/
theorem endsInExtension_iff {path : Path} :
    EndsInExtension path ↔ IsBare path ∨ IsExtension path.extension := by
  cases last : path.names.getLast? with
  | none =>
      have none : path.extension = "" := by rw [Path.extension, last]
      have noExtension : ¬ IsExtension "" := by decide
      simp [EndsInExtension, IsBare, last, none, noExtension]
  | some name =>
      simp [EndsInExtension, IsBare, last, extension_eq_of_getLast? last, hasExtension_iff]

theorem IsBare.not_supports {path : Path} (bare : IsBare path) : ¬ supports path = true :=
  not_supports_of_extension_eq bare.extension_eq

/-- An entry that counts below a directory although it is no supported file: a directory whose
name ends in an extension, or an entry whose name is an extension and nothing else. -/
structure Stray (path : Path) (entry : Entry) : Prop where
  ends : EndsInExtension path
  stray : entry.isFile = false ∨ IsBare path

theorem stray_iff {path : Path} {entry : Entry} :
    Stray path entry ↔
      EndsInExtension path ∧ ¬ (entry.isFile = true ∧ supports path = true) := by
  constructor
  · rintro ⟨ends, directory | bare⟩
    · exact ⟨ends, fun wanted => by simp [directory] at wanted⟩
    · exact ⟨ends, fun wanted => bare.not_supports wanted.2⟩
  · rintro ⟨ends, unwanted⟩
    refine ⟨ends, ?_⟩
    rcases endsInExtension_iff.mp ends with bare | isExtension
    · exact Or.inr bare
    · refine Or.inl (Bool.eq_false_of_not_eq_true fun isFile => ?_)
      exact unwanted ⟨isFile, supports_of_isExtension isExtension⟩

/-- The name of a supported file ends in an extension exactly if its extension is written in small
letters. -/
theorem endsInExtension_iff_lower_eq {path : Path} (supported : supports path = true) :
    EndsInExtension path ↔ Text.LetterCase.lower path.extension = path.extension := by
  have notBare : ¬ IsBare path := fun bare => bare.not_supports supported
  rw [endsInExtension_iff, or_iff_right notBare]
  refine ⟨fun isExtension => isExtension.lower_eq, fun same => ?_⟩
  rw [supports_iff, same] at supported
  exact supported

end Discovery

namespace FileSystem

open Discovery

variable {files : FileSystem}

/-- **Below a directory, extensions are compared as they are written.** A supported file below a
given directory, with no excluded name on the way, is found exactly if its extension is written in
small letters. If the file itself is given, it is found however its extension is written. -/
theorem mem_sourceFiles_iff_lower_eq (sound : files.IsSound) {directory : Path}
    {contents : List (String × Entry)} {names : List String} {entry : Entry}
    {excluded : List String} {includeVendored : Bool}
    (isDirectory : files.find? directory = some (.directory contents))
    (isEntry : files.find? (directory.append names) = some entry) (isFile : entry.isFile = true)
    (supported : Language.supports (directory.append names) = true) (noBack : ".." ∉ names)
    (clear : ∀ name ∈ names, name ∉ effectiveExclusions excluded includeVendored) :
    (directory.append names ∈ files.sourceFiles [directory] excluded includeVendored ↔
      Text.LetterCase.lower (directory.append names).extension =
        (directory.append names).extension) ∧
    directory.append names ∈ files.sourceFiles [directory.append names] excluded
      includeVendored := by
  have notSelf : directory.append names ≠ directory := by
    intro same
    rw [same, isDirectory] at isEntry
    cases isEntry
    cases isFile
  have nonempty : names ≠ [] := by
    rintro rfl
    exact notSelf directory.append_nil
  simp only [mem_sourceFiles_iff sound, List.mem_singleton, exists_eq_left]
  refine ⟨?_, .file isEntry isFile supported⟩
  rw [← endsInExtension_iff_lower_eq supported]
  constructor
  · intro finds
    obtain ⟨-, -, ⟨same, -⟩ | ⟨-, ends⟩⟩ := finds_iff.mp finds
    · exact absurd same notSelf
    · exact ends
  · intro ends
    exact .below ⟨contents, names, isDirectory, rfl, nonempty, noBack, clear⟩ isEntry ends

/-- Of two files below a directory, the one whose extension is written in capitals is only found if
it is given itself. -/
theorem mem_sourceFiles_sampleFiles_capitals :
    let directory : Path := ⟨.relative, ["d"]⟩
    let capitals := directory.append ["App.JSX"]
    let small := directory.append ["App.jsx"]
    sampleFiles.IsSound ∧
      (Language.supports capitals = true ∧
        capitals ∉ sampleFiles.sourceFiles [directory] [] false ∧
        capitals ∈ sampleFiles.sourceFiles [capitals] [] false) ∧
      (Language.supports small = true ∧
        small ∈ sampleFiles.sourceFiles [directory] [] false) := by
  intro directory capitals small
  have capitalsSupported : Language.supports capitals = true := by decide +kernel
  have smallSupported : Language.supports small = true := by decide +kernel
  have capitalsClear : ∀ name ∈ ["App.JSX"], name ∉ effectiveExclusions [] false := by decide
  have smallClear : ∀ name ∈ ["App.jsx"], name ∉ effectiveExclusions [] false := by decide
  obtain ⟨contents, isDirectory⟩ : ∃ contents,
      sampleFiles.find? directory = some (.directory contents) := ⟨_, rfl⟩
  have isCapitals : sampleFiles.find? capitals = some (.file []) := rfl
  have isSmall : sampleFiles.find? small = some (.file []) := rfl
  obtain ⟨ofCapitals, itself⟩ := mem_sourceFiles_iff_lower_eq isSound_sampleFiles isDirectory
    isCapitals rfl capitalsSupported (by decide) capitalsClear
  obtain ⟨ofSmall, -⟩ := mem_sourceFiles_iff_lower_eq isSound_sampleFiles isDirectory isSmall rfl
    smallSupported (by decide) smallClear
  have written : Text.LetterCase.lower capitals.extension ≠ capitals.extension := by
    decide +kernel
  have same : Text.LetterCase.lower small.extension = small.extension := by decide +kernel
  exact ⟨isSound_sampleFiles, ⟨capitalsSupported, mt ofCapitals.mp written, itself⟩,
    smallSupported, ofSmall.mpr same⟩

/-- **What is found exists, and is a supported file unless it is a stray.** The strays below a
given directory, with no excluded name on the way, are all found. -/
theorem mem_sourceFiles_and_not_supported_iff (sound : files.IsSound) (given : List Path)
    (excluded : List String) (includeVendored : Bool) :
    (∀ path ∈ files.sourceFiles given excluded includeVendored,
      ∃ entry, files.find? path = some entry) ∧
    ∀ path entry, files.find? path = some entry →
      (path ∈ files.sourceFiles given excluded includeVendored ∧
          ¬ (entry.isFile = true ∧ Language.supports path = true) ↔
        Stray path entry ∧ ∃ directory ∈ given,
          Below files (effectiveExclusions excluded includeVendored) directory path) := by
  simp only [mem_sourceFiles_iff sound]
  refine ⟨fun path => ?_, fun path entry isEntry => ⟨?_, ?_⟩⟩
  · rintro ⟨start, -, finds⟩
    obtain ⟨entry, isEntry, -⟩ := finds_iff.mp finds
    exact ⟨entry, isEntry⟩
  · rintro ⟨⟨start, isGiven, finds⟩, unwanted⟩
    obtain ⟨other, same, ⟨-, wanted⟩ | ⟨below, ends⟩⟩ := finds_iff.mp finds
    · obtain rfl := Option.some.inj (isEntry.symm.trans same)
      exact absurd wanted unwanted
    · exact ⟨stray_iff.mpr ⟨ends, unwanted⟩, start, isGiven, below⟩
  · rintro ⟨stray, directory, isGiven, below⟩
    exact ⟨⟨directory, isGiven, .below below isEntry stray.ends⟩, (stray_iff.mp stray).2⟩

/-- The directory with the name of a script is found, and so is the file that has nothing but an
extension for a name. -/
theorem mem_sourceFiles_sampleFiles_strays :
    let directory : Path := ⟨.relative, ["d"]⟩
    let scripts := directory.append ["x.ts"]
    let bare := directory.append [".js"]
    sampleFiles.IsSound ∧
      (scripts ∈ sampleFiles.sourceFiles [directory] [] false ∧
        ∃ contents, sampleFiles.find? scripts = some (.directory contents)) ∧
      (bare ∈ sampleFiles.sourceFiles [directory] [] false ∧
        sampleFiles.find? bare = some (.file []) ∧ ¬ Language.supports bare = true) := by
  intro directory scripts bare
  obtain ⟨-, strays⟩ :=
    mem_sourceFiles_and_not_supported_iff isSound_sampleFiles [directory] [] false
  have scriptsBelow : Below sampleFiles (effectiveExclusions [] false) directory scripts :=
    ⟨_, ["x.ts"], rfl, rfl, by decide, by decide, by decide⟩
  have bareBelow : Below sampleFiles (effectiveExclusions [] false) directory bare :=
    ⟨_, [".js"], rfl, rfl, by decide, by decide, by decide⟩
  have isBare : IsBare bare := ⟨".js", rfl, by decide⟩
  have scriptsStray : ∀ contents, Stray scripts (.directory contents) :=
    fun _ => ⟨⟨"x.ts", rfl, by decide⟩, Or.inl rfl⟩
  have bareStray : Stray bare (.file []) := ⟨⟨".js", rfl, by decide⟩, Or.inr isBare⟩
  have scriptsFound := (strays scripts _ rfl).mpr
    ⟨scriptsStray _, directory, List.mem_singleton_self _, scriptsBelow⟩
  have bareFound := (strays bare _ rfl).mpr
    ⟨bareStray, directory, List.mem_singleton_self _, bareBelow⟩
  exact ⟨isSound_sampleFiles, ⟨scriptsFound.1, _, rfl⟩, bareFound.1, rfl,
    fun supported => bareFound.2 ⟨rfl, supported⟩⟩

end FileSystem

end StaleRead
