import StaleRead.Command.Check
import StaleRead.Proofs.FileSystem.SourceFiles
import StaleRead.Proofs.Linter
import StaleRead.Proofs.Text.Json

/-! # What a check tells

A check gives each source file the findings that the file has by itself (`Check.results_eq`).
From these follow its status, the counts and tables of the text format, and the document of the
JSON format. The document is all that is written exactly if no details are wanted
(`Check.outputs_json`).
-/

namespace StaleRead

/-- A linter checks each of some files as if it were the only one. -/
theorem Linter.Sound.lintFiles_eq {conventions : Conventions} {linter : Linter}
    (sound : linter.Sound conventions) (grammar : Grammar) (files : FileSystem)
    (paths : List Path) :
    linter.lintFiles grammar files paths =
      paths.map fun path => ⟨path, fileResult grammar conventions files path⟩ := by
  induction paths generalizing linter with
  | nil => rfl
  | cons path paths ih =>
      obtain ⟨next, answered, kept⟩ := sound.lintFile_eq grammar files path
      rw [lintFiles, answered, List.map_cons]
      simp only [ih kept]

namespace Check

variable (surroundings : Surroundings) (request : CheckRequest)

/-- The findings in a file, if it is not skipped. -/
def findings? (path : Path) : Option (List Finding) :=
  Linter.fileResult surroundings.grammar (settings surroundings).conventions surroundings.files path

/-- The findings in a file; there are none in one that is skipped. -/
def findings (path : Path) : List Finding :=
  (findings? surroundings path).getD []

/-- The findings in all source files, file after file. -/
def found : List Finding :=
  (sourceFiles surroundings request).flatMap (findings surroundings)

/-- The source files with findings. -/
def failingFiles : List Path :=
  (sourceFiles surroundings request).filter fun path => findings surroundings path ≠ []

/-- How the messages of a check are shown. -/
def console : Console :=
  ⟨surroundings.utf8, request.verbose⟩

/-- What is said before the report. -/
def details : List Output :=
  (console surroundings request).detail
      ("Discovered " ++ toString (sourceFiles surroundings request).length ++ " file(s)") ++
    bar surroundings request (sourceFiles surroundings request) ++
    (results surroundings request).flatMap (progress surroundings (console surroundings request))

/-- A check is refused if its format is unknown or a given path leads nowhere. -/
def Refused : Prop :=
  request.format ∉ formats ∨
    ∃ path ∈ givenPaths request, surroundings.files.exists? path = false

variable {surroundings request}

theorem results_eq :
    results surroundings request =
      (sourceFiles surroundings request).map fun path => ⟨path, findings? surroundings path⟩ :=
  (Linter.sound_ofConventions _).lintFiles_eq _ _ _

theorem allFindings_results : allFindings (results surroundings request) =
    found surroundings request := by
  rw [results_eq, allFindings, List.flatMap_map]
  rfl

theorem findings_ne_nil_iff {path : Path} : findings surroundings path ≠ [] ↔
    ∃ reported, findings? surroundings path = some reported ∧ reported ≠ [] := by
  rw [findings]
  cases findings? surroundings path <;> simp

theorem refusals_eq_nil_iff :
    refusals surroundings request (givenPaths request) = [] ↔ ¬ Refused surroundings request := by
  by_cases known : request.format ∈ formats
  · simp [refusals, Refused, known, FileSystem.absent]
  · simp [refusals, Refused, known]

theorem run_of_refused (refused : Refused surroundings request) :
    run surroundings request =
      ⟨1, (refusals surroundings request (givenPaths request)).map
        (console surroundings request).error⟩ := by
  rw [run]
  split
  · rename_i none
    exact absurd refused (refusals_eq_nil_iff.mp none)
  · rfl

theorem run_of_not_refused (accepted : ¬ Refused surroundings request) :
    run surroundings request =
      { status := if (found surroundings request).isEmpty then 0 else 1
        outputs := details surroundings request ++ report surroundings
          (console surroundings request) request.format (results surroundings request) } := by
  rw [run, refusals_eq_nil_iff.mpr accepted]
  simp only [allFindings_results]
  rfl

theorem status_run :
    ((run surroundings request).status = 1 ↔ Refused surroundings request ∨
      ∃ path ∈ sourceFiles surroundings request, ∃ reported,
        findings? surroundings path = some reported ∧ reported ≠ []) ∧
    ((run surroundings request).status ≠ 1 → (run surroundings request).status = 0) := by
  by_cases refused : Refused surroundings request
  · simp [run_of_refused refused, refused]
  · have some_found : (found surroundings request).isEmpty = false ↔
        ∃ path ∈ sourceFiles surroundings request, ∃ reported,
          findings? surroundings path = some reported ∧ reported ≠ [] := by
      rw [← Bool.not_eq_true, List.isEmpty_iff, found, List.flatMap_eq_nil_iff]
      push Not
      exact exists_congr fun path => and_congr_right fun _ => findings_ne_nil_iff
    rw [run_of_not_refused refused, ← some_found]
    cases (found surroundings request).isEmpty <;> simp [refused]

/-- On each file there is one detail. -/
theorem exists_progress (surroundings : Surroundings) (console : Console)
    (result : FileResult) :
    ∃ markup, progress surroundings console result = console.detail markup := by
  rw [progress]
  split <;> exact ⟨_, rfl⟩

theorem exists_of_mem_detail {console : Console} {markup : String} {output : Output}
    (member : output ∈ console.detail markup) : ∃ markup, output = .message markup := by
  rw [Console.detail] at member
  split at member
  · exact ⟨_, List.mem_singleton.mp member⟩
  · cases member

/-- What is said before the report are messages, apart from the progress bar. -/
theorem exists_of_mem_details {output : Output}
    (member : output ∈ details surroundings request)
    (noBar : output ∉ bar surroundings request (sourceFiles surroundings request)) :
    ∃ markup, output = .message markup := by
  rcases List.mem_append.mp member with first | onFile
  · rcases List.mem_append.mp first with count | shown
    · exact exists_of_mem_detail count
    · exact absurd shown noBar
  · obtain ⟨result, -, said⟩ := List.mem_flatMap.mp onFile
    obtain ⟨markup, same⟩ := exists_progress surroundings (console surroundings request) result
    exact exists_of_mem_detail (same ▸ said)

theorem bar_json (json : request.format = "json") (files : List Path) :
    bar surroundings request files = [] := by
  simp [bar, showsBar, json]

/-- There is one detail on each file and one on their number, if details are wanted. -/
theorem length_details (surroundings : Surroundings) (json : request.format = "json") :
    (details surroundings request).length =
      if request.verbose then (sourceFiles surroundings request).length + 1 else 0 := by
  have one : ∀ markup, ((console surroundings request).detail markup).length =
      if request.verbose then 1 else 0 := by
    intro markup
    rw [Console.detail, console]
    split_ifs <;> rfl
  have each : ∀ result, (progress surroundings (console surroundings request) result).length =
      if request.verbose then 1 else 0 := by
    intro result
    obtain ⟨markup, same⟩ := exists_progress surroundings (console surroundings request) result
    rw [same, one]
  simp only [details, bar_json json, results_eq, List.append_nil, List.length_append, one,
    List.length_flatMap, List.map_map, Function.comp_def, each, List.map_const',
    List.sum_replicate_nat]
  cases request.verbose <;> simp [Nat.add_comm]

theorem outputs_of_json (accepted : ¬ Refused surroundings request)
    (json : request.format = "json") :
    (run surroundings request).outputs = details surroundings request ++
      [.line (Text.Json.render ((found surroundings request).map record))] := by
  rw [run_of_not_refused accepted, report, if_pos json, allFindings_results]

/-- **The JSON format writes one document, behind the details.** Where every given path leads
somewhere, the last output is a line with the records of all findings and nothing else, and before
it stand only messages: one on the number of files and one on each file if details are wanted, and
none otherwise. So the document is all that is written exactly if no details are wanted, whatever
else is asked for. -/
theorem outputs_json (json : request.format = "json")
    (present : ∀ path ∈ givenPaths request, surroundings.files.exists? path = true) :
    ∃ details text,
      (run surroundings request).outputs = details ++ [.line text] ∧
      Text.Json.read? text = some ((found surroundings request).map record) ∧
      (∀ output ∈ details, ∃ markup, output = .message markup) ∧
      (details.length =
        if request.verbose then (sourceFiles surroundings request).length + 1 else 0) ∧
      ((run surroundings request).outputs = [.line text] ↔ request.verbose = false) := by
  have accepted : ¬ Refused surroundings request := by
    rintro (unknown | ⟨path, given, absent⟩)
    · exact unknown (by rw [json]; decide)
    · rw [present path given] at absent
      cases absent
  have written := outputs_of_json accepted json
  have length := length_details surroundings json
  refine ⟨_, _, written, Text.Json.read?_render _, fun output member =>
    exists_of_mem_details member (by rw [bar_json json]; exact List.not_mem_nil), length, ?_⟩
  rw [written, List.append_left_eq_self, ← List.length_eq_zero_iff, length]
  cases request.verbose <;> simp

/-- A directory with a file that has findings and one that cannot be read. -/
def mixedDirectory : Surroundings where
  files := ⟨.directory [("a.js", .file directSource.bytes), ("b.js", .unreadable)], []⟩
  environment := ⟨[(Settings.basesVariable, "C")]⟩
  grammar _ _ := directTree
  tenths _ := 0
  terminal := false
  utf8 := true

/-- With details, three messages stand before the document, which holds one record. -/
theorem outputs_json_mixedDirectory :
    let request : CheckRequest := ⟨[], "json", false, true, false⟩
    request.format = "json" ∧
      (∀ path ∈ givenPaths request, mixedDirectory.files.exists? path = true) ∧
      ∃ details text record,
        (run mixedDirectory request).outputs = details ++ [.line text] ∧
        details.length = 3 ∧ Text.Json.read? text = some [record] ∧
        (run mixedDirectory request).outputs ≠ [.line text] := by
  intro request
  have present : ∀ path ∈ givenPaths request, mixedDirectory.files.exists? path = true := by
    decide
  obtain ⟨details, text, written, holds, -, length, alone⟩ := outputs_json rfl present
  have files : (sourceFiles mixedDirectory request).length = 2 := by decide +kernel
  obtain ⟨finding, one⟩ : ∃ finding, found mixedDirectory request = [finding] :=
    List.length_eq_one_iff.mp (by decide +kernel)
  rw [files] at length
  rw [one] at holds
  exact ⟨rfl, present, details, text, _, written, length, holds, fun only =>
    nomatch alone.mp only⟩

/-- The summary for some numbers: of the files that were checked and of those that were skipped,
of findings, and of files with findings. -/
def summaryOf (console : Console) (checked skipped total failing : Nat) : List Output :=
  [console.say "\n[bold yellow]Summary:[/bold yellow]",
      console.say ("  Files checked: " ++ toString checked)] ++
    (if skipped = 0 then [] else [console.say ("  Files skipped: " ++ toString skipped)]) ++
    [console.say (if total = 0 then
        "[bold green]✓ No state reads inside setState arguments found![/bold green]"
      else
        "  [bold red]✗ " ++ toString total ++ " violation(s)[/bold red] in " ++
          toString failing ++ " file(s) [dim](" ++ ruleName ++ ")[/dim]")]

theorem checked_results :
    (checked (results surroundings request)).map FileResult.path =
      (sourceFiles surroundings request).filter fun path =>
        (findings? surroundings path).isSome := by
  rw [results_eq, checked, List.filter_map, List.map_map]
  exact List.map_id _

theorem skipped_results :
    (skipped (results surroundings request)).map FileResult.path =
      (sourceFiles surroundings request).filter fun path =>
        (findings? surroundings path).isNone := by
  rw [results_eq, skipped, List.filter_map, List.map_map]
  exact List.map_id _

theorem failing_results :
    failing (results surroundings request) =
      (failingFiles surroundings request).map fun path => ⟨path, findings? surroundings path⟩ := by
  rw [results_eq, failing, List.filter_map, failingFiles]
  refine congrArg _ (List.filter_congr fun path _ => ?_)
  change (!(findings surroundings path).isEmpty) = decide (findings surroundings path ≠ [])
  cases findings surroundings path <;> rfl

theorem length_checked_add_length_skipped (results : List FileResult) :
    (checked results).length + (skipped results).length = results.length := by
  have split := List.length_eq_length_filter_add (l := results) (·.findings?.isSome)
  simp only [Option.not_isSome] at split
  exact split.symm

/-- Files that were skipped have no findings. -/
theorem allFindings_checked (results : List FileResult) :
    allFindings (checked results) = allFindings results := by
  induction results with
  | nil => rfl
  | cons result results ih =>
      simp only [allFindings, checked] at ih ⊢
      cases settled : result.findings? <;> simp [settled, ih]

theorem summary_eq (console : Console) (results : List FileResult) :
    summary console results = summaryOf console (checked results).length
      (skipped results).length (allFindings results).length (failing results).length := by
  simp only [summary, summaryOf, List.isEmpty_iff, List.length_eq_zero_iff]

/-- What a refused check says: that the format is unknown, or else which of the given paths lead
nowhere, in the order given. No file is read or analysed: nothing matters beyond which of the given
paths lead somewhere. -/
structure Refuses (surroundings : Surroundings) (request : CheckRequest) : Prop where
  unknown : request.format ∉ formats → (run surroundings request).outputs =
    [(console surroundings request).error ("Unknown format '" ++ request.format ++
      "' (expected one of: " ++ ", ".intercalate formats ++ ")")]
  absent : request.format ∈ formats → (run surroundings request).outputs =
    ((givenPaths request).filter fun path => !surroundings.files.exists? path).map fun path =>
      (console surroundings request).error ("Path does not exist: " ++ path.text)
  unread : ∀ other : Surroundings, other.utf8 = surroundings.utf8 →
    (∀ path ∈ givenPaths request,
      other.files.exists? path = surroundings.files.exists? path) →
    run other request = run surroundings request

/-- What a check tells that is not refused. Each source file, in the order of paths, was either
checked or skipped. The findings that count are those of the files that were checked, file after
file: the JSON document has their records, and the text format gives their number, the number of
files with findings, and a table for each of these files and for no other. -/
structure Tells (surroundings : Surroundings) (request : CheckRequest) : Prop where
  ascending : (sourceFiles surroundings request).Pairwise fun first second =>
    first.le second = true
  apart : ∀ path ∈ sourceFiles surroundings request,
    (path ∈ (checked (results surroundings request)).map FileResult.path ↔
      path ∉ (skipped (results surroundings request)).map FileResult.path)
  counted : (checked (results surroundings request)).length +
    (skipped (results surroundings request)).length = (sourceFiles surroundings request).length
  unaffected : found surroundings request = allFindings (checked (results surroundings request))
  json : request.format = "json" → (run surroundings request).outputs =
    details surroundings request ++
      [.line (Text.Json.render ((found surroundings request).map record))]
  text : request.format = "text" → (run surroundings request).outputs =
    details surroundings request ++
      (failingFiles surroundings request).map (fun path =>
        table surroundings ⟨path, findings? surroundings path⟩) ++
      summaryOf (console surroundings request) (checked (results surroundings request)).length
        (skipped (results surroundings request)).length (found surroundings request).length
        (failingFiles surroundings request).length
  aside : ∀ output ∈ details surroundings request, (∃ markup, output = .message markup) ∨
    ∃ description total, output = .progressBar description total

theorem refuses (refused : Refused surroundings request) : Refuses surroundings request := by
  have said := run_of_refused refused
  refine ⟨fun unknown => ?_, fun known => ?_, fun other utf8 same => ?_⟩
  · rw [said, refusals, if_pos unknown]
    rfl
  · rw [said, refusals, if_neg (not_not.mpr known), List.map_map]
    rfl
  · have again : Refused other request :=
      refused.imp_right fun ⟨path, given, absent⟩ => ⟨path, given, (same path given).trans absent⟩
    have absent : other.files.absent (givenPaths request) =
        surroundings.files.absent (givenPaths request) :=
      List.filter_congr fun path given => congrArg _ (same path given)
    rw [said, run_of_refused again, refusals, refusals, absent, console, console, utf8]

theorem tells (accepted : ¬ Refused surroundings request) : Tells surroundings request where
  ascending := FileSystem.pairwise_sourceFiles ..
  apart path inside := by
    rw [checked_results, skipped_results]
    simp [inside, Option.isSome_iff_ne_none]
  counted := by
    rw [length_checked_add_length_skipped, results_eq, List.length_map]
  unaffected := by rw [allFindings_checked, allFindings_results]
  json := outputs_of_json accepted
  text text := by
    have other : request.format ≠ "json" := by
      rw [text]
      decide
    rw [run_of_not_refused accepted, report, if_neg other, summary_eq, failing_results,
      allFindings_results, List.map_map, List.length_map, List.append_assoc]
    rfl
  aside output member := by
    by_cases shown : output ∈ bar surroundings request (sourceFiles surroundings request)
    · rw [bar] at shown
      split at shown
      · exact .inr ⟨_, _, List.mem_singleton.mp shown⟩
      · cases shown
    · exact .inl (exists_of_mem_details member shown)

/-- **The status and the report agree with the findings of the files.** The status is one if the
check is refused or some source file has a finding, and otherwise zero. Without given paths the
working directory is searched. A refused check only says why, and any other one tells what was
found in the files, each by itself. -/
theorem run_agrees (surroundings : Surroundings) (request : CheckRequest) :
    ((run surroundings request).status = 1 ↔ Refused surroundings request ∨
      ∃ path ∈ sourceFiles surroundings request, ∃ reported,
        findings? surroundings path = some reported ∧ reported ≠ []) ∧
    ((run surroundings request).status ≠ 1 → (run surroundings request).status = 0) ∧
    (request.given = [] →
      run surroundings request = run surroundings { request with given := ["."] }) ∧
    (Refused surroundings request → Refuses surroundings request) ∧
    (¬ Refused surroundings request → Tells surroundings request) := by
  refine ⟨status_run.1, status_run.2, fun none => ?_, refuses, tells⟩
  obtain ⟨given, format, includeVendored, verbose, noProgress⟩ := request
  obtain rfl : given = [] := none
  rfl

/-- With both files accounted for, the one with findings makes the status one. With another format
the check is refused. -/
theorem run_mixedDirectory :
    let request : CheckRequest := ⟨[], "text", false, false, false⟩
    (run mixedDirectory request).status = 1 ∧
      run mixedDirectory request = run mixedDirectory { request with given := ["."] } ∧
      (checked (results mixedDirectory request)).length +
        (skipped (results mixedDirectory request)).length = 2 ∧
      Refuses mixedDirectory { request with format := "xml" } := by
  intro request
  obtain ⟨fails, -, here, -, tells⟩ := run_agrees mixedDirectory request
  obtain ⟨-, -, -, refuses, -⟩ := run_agrees mixedDirectory { request with format := "xml" }
  have accepted : ¬ Refused mixedDirectory request := refusals_eq_nil_iff.mp rfl
  have files : sourceFiles mixedDirectory request =
      [⟨.relative, ["a.js"]⟩, ⟨.relative, ["b.js"]⟩] := by
    decide +kernel
  have reported : findings mixedDirectory ⟨.relative, ["a.js"]⟩ ≠ [] := by decide +kernel
  have counted := (tells accepted).counted
  rw [files] at counted
  refine ⟨fails.mpr (.inr ⟨_, ?_, findings_ne_nil_iff.mp reported⟩), here rfl, counted,
    refuses (.inl (by decide))⟩
  rw [files]
  exact List.mem_cons_self

/-- A path that leads nowhere is not named if the format is unknown. -/
theorem absent_unnamed :
    ¬ ∀ surroundings request, Refused surroundings request →
      ∀ path ∈ givenPaths request, surroundings.files.exists? path = false →
        (console surroundings request).error ("Path does not exist: " ++ path.text) ∈
          (run surroundings request).outputs := by
  intro named
  have wrong := named mixedDirectory ⟨["nope"], "xml", false, false, false⟩ (.inl (by decide))
    (Path.ofText "nope") (by decide) (by decide)
  revert wrong
  decide +kernel

end Check

end StaleRead
