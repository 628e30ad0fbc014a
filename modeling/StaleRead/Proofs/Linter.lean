import StaleRead.Linter
import StaleRead.Proofs.Analysis.Growth
import StaleRead.Proofs.Path
import StaleRead.Proofs.Text.Utf8

/-! # One linter for many requests

All that a linter keeps from one request to the next are the parsers that it made, and each of
them reads the language that has the name it is kept under (`Linter.Sound`). So the outcome of a
request does not depend on what was asked before (`Linter.answer_after`), whether that was
answered, skipped or failed. A request without a language leaves the parsers as they are, while
one whose text holds a surrogate leaves the parser of its language as well. A file that holds a
text has the findings of the text under the name of its path.
-/

namespace StaleRead

/-- What a linter can be asked for: the findings in a source, or those in the file that a text
denotes on some disk. -/
inductive LintRequest where
  | source (given : GivenSource) (file : String) (language? : Option String)
  | file (disk : Disk) (given : String)

namespace Linter

/-- The answer to a request, which is none for a file that is skipped, and the linter after
it. -/
def answer (grammar : Grammar) (linter : Linter) :
    LintRequest → Except LintError (Option (List Finding)) × Linter
  | .source given file language? =>
      let (result, next) := linter.lintSource grammar given file language?
      (result.map some, next)
  | .file disk given => linter.lintPath grammar disk (Path.ofText given)

/-- A linter that has answered some requests, one after the other. -/
def after (grammar : Grammar) (conventions : Conventions) (earlier : List LintRequest) : Linter :=
  earlier.foldl (fun linter request => (linter.answer grammar request).2)
    (ofConventions conventions)

/-- The linter checks under the conventions, and each parser that it keeps reads the language
with the name that it is kept under. -/
structure Sound (conventions : Conventions) (linter : Linter) : Prop where
  conventions : linter.conventions = conventions
  parsers : ∀ entry ∈ linter.parsers, Language.require entry.1 = .ok entry.2

/-- The parsers of the next linter are those of a linter and one more, unless that was there
already. -/
def Gains (linter next : Linter) (entry : String × Language) : Prop :=
  ∀ kept, kept ∈ next.parsers ↔ kept ∈ linter.parsers ∨ kept = entry

variable {conventions : Conventions} {linter : Linter}

theorem sound_ofConventions (conventions : Conventions) :
    (ofConventions conventions).Sound conventions :=
  ⟨rfl, fun _ member => (List.not_mem_nil member).elim⟩

/-- There is a parser for a name exactly if a language has the name, and it reads that
language and is kept. Where there is none, nothing changes. -/
theorem Sound.parser_eq (sound : linter.Sound conventions) (name : String) :
    ∃ next : Linter, linter.parser name = (Language.require name, next) ∧
      next.Sound conventions ∧
      (∀ error, Language.require name = .error error → next = linter) ∧
      ∀ language, Language.require name = .ok language → linter.Gains next (name, language) := by
  rw [parser]
  cases found : linter.parsers.lookup name with
  | some language =>
      obtain ⟨before, behind, split, -⟩ := List.lookup_eq_some_iff.mp found
      have kept : (name, language) ∈ linter.parsers := by
        rw [split]
        exact List.mem_append_right _ List.mem_cons_self
      have required := sound.parsers _ kept
      refine ⟨linter, by rw [required], sound, fun _ _ => rfl, fun other same entry => ?_⟩
      cases required.symm.trans same
      exact (or_iff_left_of_imp fun new => new ▸ kept).symm
  | none =>
      cases required : Language.require name with
      | error error => exact ⟨linter, rfl, sound, fun _ _ => rfl, nofun⟩
      | ok language =>
          refine ⟨_, rfl, ⟨sound.conventions, fun entry member => ?_⟩, nofun, ?_⟩
          · rcases List.mem_cons.mp member with rfl | earlier
            · exact required
            · exact sound.parsers entry earlier
          · rintro _ ⟨⟩ entry
            rw [List.mem_cons, or_comm]

/-- The parser that a source is read with: its language, under the name that it is kept under. -/
def sourceParser (file : String) (language? : Option String) :
    Except LintError (String × Language) :=
  match languageName file language? with
  | .error error => .error error
  | .ok name =>
      match Language.require name with
      | .error error => .error error
      | .ok language => .ok (name, language)

/-- The findings in a source, or why there are none, by the conventions alone. -/
def sourceResult (grammar : Grammar) (conventions : Conventions) (given : GivenSource)
    (file : String) (language? : Option String) : Except LintError (List Finding) :=
  match sourceParser file language? with
  | .error error => .error error
  | .ok (_, language) => (given.read.mapError .unencodable).map fun source =>
      lint source conventions file (grammar language source)

theorem isUnsupported_of_languageName {file : String} {language? : Option String}
    {error : LintError} (failed : languageName file language? = .error error) :
    error.isUnsupported := by
  unfold languageName at failed
  split at failed
  · cases failed
  · split at failed <;> cases failed
    rfl

theorem isUnsupported_of_require {name : String} {error : LintError}
    (failed : Language.require name = .error error) : error.isUnsupported := by
  unfold Language.require at failed
  split at failed <;> cases failed
  rfl

/-- A source has no parser only if there is no language for it. -/
theorem isUnsupported_of_sourceParser {file : String} {language? : Option String}
    {error : LintError} (failed : sourceParser file language? = .error error) :
    error.isUnsupported := by
  unfold sourceParser at failed
  split at failed
  · cases failed
    exact isUnsupported_of_languageName ‹_›
  · split at failed <;> cases failed
    exact isUnsupported_of_require ‹_›

/-- The findings in a file that can be read and has a language, by the conventions alone. -/
def fileResult (grammar : Grammar) (conventions : Conventions) (files : FileSystem)
    (path : Path) : Option (List Finding) :=
  (Language.ofPath? path).bind fun language => (files.read? path).map fun bytes =>
    lint ⟨bytes⟩ conventions path.text (grammar language ⟨bytes⟩)

theorem Sound.lintSource_eq (sound : linter.Sound conventions) (grammar : Grammar)
    (given : GivenSource) (file : String) (language? : Option String) :
    ∃ next : Linter,
      linter.lintSource grammar given file language? =
        (sourceResult grammar conventions given file language?, next) ∧
      next.Sound conventions ∧
      (∀ error, sourceParser file language? = .error error → next = linter) ∧
      ∀ entry, sourceParser file language? = .ok entry → linter.Gains next entry := by
  rw [lintSource, sourceResult, sourceParser]
  cases languageName file language? with
  | error error => exact ⟨linter, rfl, sound, fun _ _ => rfl, nofun⟩
  | ok name =>
      obtain ⟨next, made, kept, unchanged, gains⟩ := sound.parser_eq name
      cases required : Language.require name with
      | error error =>
          simp only [made, required]
          exact ⟨next, rfl, kept, fun _ _ => unchanged error required, nofun⟩
      | ok language =>
          simp only [made, required, findings, kept.conventions]
          refine ⟨next, rfl, kept, nofun, fun entry same => ?_⟩
          cases same
          exact gains language required

theorem require_name (language : Language) : Language.require language.name = .ok language := by
  cases language <;> rfl

theorem Sound.lintFile_eq (sound : linter.Sound conventions) (grammar : Grammar)
    (files : FileSystem) (path : Path) :
    ∃ next : Linter,
      linter.lintFile grammar files path =
        (fileResult grammar conventions files path, next) ∧
      next.Sound conventions := by
  rw [lintFile, fileResult]
  cases Language.ofPath? path with
  | none => exact ⟨linter, rfl, sound⟩
  | some language =>
      obtain ⟨next, made, kept, -⟩ := sound.parser_eq language.name
      simp only [made, require_name, findings, kept.conventions]
      exact ⟨next, rfl, kept⟩

/-- The findings in the file at a path on a disk, or why there are none, by the conventions
alone. -/
def pathResult (grammar : Grammar) (conventions : Conventions) (disk : Disk) (path : Path) :
    Except LintError (Option (List Finding)) :=
  match Language.ofPath? path, disk.refusal? path with
  | some _, some refusal => .error (.refusedPath path refusal)
  | _, _ => .ok (fileResult grammar conventions disk.files path)

theorem Sound.lintPath_eq (sound : linter.Sound conventions) (grammar : Grammar) (disk : Disk)
    (path : Path) :
    ∃ next : Linter,
      linter.lintPath grammar disk path = (pathResult grammar conventions disk path, next) ∧
      next.Sound conventions := by
  obtain ⟨next, answered, kept⟩ := sound.lintFile_eq grammar disk.files path
  refine ⟨next, ?_, kept⟩
  rw [lintPath, pathResult, answered]
  cases Language.ofPath? path <;> cases disk.refusal? path <;> rfl

/-- The answer to a request, by the conventions alone. -/
def answerOf (grammar : Grammar) (conventions : Conventions) :
    LintRequest → Except LintError (Option (List Finding))
  | .source given file language? =>
      (sourceResult grammar conventions given file language?).map some
  | .file disk given => pathResult grammar conventions disk (Path.ofText given)

/-- What becomes of a linter with a request that has a result. -/
structure Asked (linter next : Linter) (request : LintRequest)
    (result : Except LintError (Option (List Finding))) : Prop where
  /-- Where there is no language, nothing changes. -/
  unsupported : ∀ error, result = .error error → error.isUnsupported → next = linter
  /-- Only a text with a surrogate has no bytes, and then the parser for it is there. -/
  unencodable : ∀ error, result = .error (.unencodable error) →
    ∃ points offset file language? entry, request = .source (.text points) file language? ∧
      .surrogate offset ∈ points ∧ sourceParser file language? = .ok entry ∧
      linter.Gains next entry

/-- What has no bytes is a text with a surrogate. -/
theorem exists_surrogate_of_read {given : GivenSource} {error : Text.Utf8.EncodeError}
    (failed : given.read = .error error) :
    ∃ points offset, given = .text points ∧ .surrogate offset ∈ points := by
  cases given with
  | bytes source => cases failed
  | text points =>
      have unencodable := (Text.Utf8.exists_map_eq_error_iff _ _).mp ⟨error, failed⟩
      obtain ⟨offset, inside⟩ := (Text.Utf8.encodePoints_eq_error_iff points).mp unencodable
      exact ⟨points, offset, rfl, inside⟩

/-- One request is answered by the conventions alone and keeps the parsers right. -/
theorem Sound.answer_eq (sound : linter.Sound conventions) (grammar : Grammar)
    (request : LintRequest) :
    ∃ next : Linter,
      linter.answer grammar request = (answerOf grammar conventions request, next) ∧
      next.Sound conventions ∧
      Asked linter next request (answerOf grammar conventions request) := by
  cases request with
  | source given file language? =>
      obtain ⟨next, answered, kept, unchanged, gains⟩ :=
        sound.lintSource_eq grammar given file language?
      refine ⟨next, by rw [answer, answered, answerOf], kept, ?_⟩
      rw [answerOf, sourceResult]
      cases parser : sourceParser file language? with
      | error error =>
          refine ⟨fun _ _ _ => unchanged error parser, ?_⟩
          rintro _ ⟨⟩
          cases isUnsupported_of_sourceParser parser
      | ok entry =>
          cases read : given.read with
          | ok source => exact ⟨nofun, nofun⟩
          | error error =>
              obtain ⟨points, offset, rfl, inside⟩ := exists_surrogate_of_read read
              refine ⟨?_, fun _ _ => ?_⟩
              · rintro _ ⟨⟩ ⟨⟩
              · exact ⟨points, offset, file, language?, entry, rfl, inside, parser,
                  gains entry parser⟩
  | file disk given =>
      obtain ⟨next, answered, kept⟩ := sound.lintPath_eq grammar disk (Path.ofText given)
      refine ⟨next, answered, kept, ?_⟩
      rw [answerOf, pathResult]
      split
      · refine ⟨?_, nofun⟩
        rintro _ ⟨⟩ ⟨⟩
      · exact ⟨nofun, nofun⟩

/-- Any requests keep the parsers right. -/
theorem sound_after (grammar : Grammar) (conventions : Conventions)
    (earlier : List LintRequest) : (after grammar conventions earlier).Sound conventions := by
  have onward : ∀ {linter : Linter}, linter.Sound conventions →
      (earlier.foldl (fun linter request => (linter.answer grammar request).2)
        linter).Sound conventions := by
    induction earlier with
    | nil => exact id
    | cons request rest ih =>
        intro linter sound
        obtain ⟨next, answered, kept, -⟩ := sound.answer_eq grammar request
        rw [List.foldl_cons, answered]
        exact ih kept
  exact onward (sound_ofConventions conventions)

/-- A file that holds a text and has a language is answered like the text, given with the name of
the file's path. -/
theorem answerOf_file (grammar : Grammar) (conventions : Conventions) {disk : Disk}
    {given text : String} {language : Language}
    (supported : Language.ofPath? (Path.ofText given) = some language)
    (found : disk.refusal? (Path.ofText given) = none)
    (holds : disk.files.read? (Path.ofText given) = some (Text.Utf8.encode text)) :
    let file := (Path.ofText given).text
    let findings := lint (.ofText text) conventions file (grammar language (.ofText text))
    answerOf grammar conventions (.file disk given) = .ok (some findings) ∧
      answerOf grammar conventions (.source (.ofText text) file none) = .ok (some findings) := by
  have parser : sourceParser (Path.ofText given).text none = .ok (language.name, language) := by
    rw [sourceParser, languageName, Path.ofText_text_ofText, supported]
    simp only [require_name]
  have read : (GivenSource.ofText text).read = .ok (.ofText text) := by
    rw [GivenSource.ofText, GivenSource.read, Text.Utf8.encodePoints_points]
    rfl
  constructor
  · rw [answerOf, pathResult, supported, found, fileResult, supported, holds]
    rfl
  · rw [answerOf, sourceResult, parser, read]
    rfl

/-- **The requests to one linter do not depend on each other.** Whatever was asked before, a
request has the outcome that it has for a linter that has not checked anything. One that fails as
there is no language leaves the parsers as they are; one that fails as its text holds a surrogate
leaves those and the parser of its language. A file with a supported extension that holds a text
in UTF-8 has the findings of the text under the name of the file's path. -/
theorem answer_after (grammar : Grammar) (conventions : Conventions)
    (earlier : List LintRequest) (request : LintRequest) :
    let linter := after grammar conventions earlier
    let next := (linter.answer grammar request).2
    (linter.answer grammar request).1 =
        ((ofConventions conventions).answer grammar request).1 ∧
      (∀ error, (linter.answer grammar request).1 = .error error → error.isUnsupported →
        next = linter) ∧
      (∀ error, (linter.answer grammar request).1 = .error (.unencodable error) →
        ∃ points offset file language? entry, request = .source (.text points) file language? ∧
          .surrogate offset ∈ points ∧ sourceParser file language? = .ok entry ∧
          linter.Gains next entry) ∧
      ∀ disk given text language,
        Language.ofPath? (Path.ofText given) = some language →
        disk.refusal? (Path.ofText given) = none →
        disk.files.read? (Path.ofText given) = some (Text.Utf8.encode text) →
        ∃ findings,
          (linter.answer grammar (.file disk given)).1 = .ok (some findings) ∧
          (linter.answer grammar
            (.source (.ofText text) (Path.ofText given).text none)).1 = .ok (some findings) := by
  intro linter next
  have result : ∀ {linter : Linter}, linter.Sound conventions → ∀ request,
      (linter.answer grammar request).1 = answerOf grammar conventions request := by
    intro linter sound request
    obtain ⟨next, answered, -⟩ := sound.answer_eq grammar request
    rw [answered]
  have sound : linter.Sound conventions := sound_after grammar conventions earlier
  have asked : Asked linter next request (linter.answer grammar request).1 := by
    obtain ⟨following, answered, -, asked⟩ := sound.answer_eq grammar request
    simpa only [next, answered] using asked
  refine ⟨?_, asked.unsupported, asked.unencodable, fun disk given text language supported found
    holds => ?_⟩
  · rw [result sound, result (sound_ofConventions conventions)]
  · rw [result sound, result sound]
    exact ⟨_, answerOf_file grammar conventions supported found holds⟩

/-- A disk with one file, which holds a text. -/
def textDisk (text : String) : Disk :=
  .ofFiles ⟨.directory [("a.js", .file (Text.Utf8.encode text))], []⟩

/-- Behind a request for a language that there is none of and one for a file that is missing,
a text with a surrogate leaves the parser of its language, and a file has the findings of its
text. -/
theorem answer_after_refusal :
    let grammar : Grammar := fun _ _ => directTree
    let text := "class A extends C{m(){this.setState(this.state)}}"
    let unnamed : LintRequest := .source (.bytes directSource) "a.js" (some "ruby")
    let surrogate : LintRequest := .source (.text [.surrogate 0]) "a.ts" none
    let linter := after grammar plainConventions [unnamed, .file (textDisk text) "b.js"]
    (linter.answer grammar unnamed).2 = linter ∧
      linter.Gains (linter.answer grammar surrogate).2 ("typescript", .typescript) ∧
      ∃ findings,
        (linter.answer grammar (.file (textDisk text) "./a.js")).1 = .ok (some findings) ∧
        (linter.answer grammar (.source (.ofText text) "a.js" none)).1 = .ok (some findings) := by
  intro grammar text unnamed surrogate linter
  obtain ⟨-, unchanged, -, holding⟩ :=
    answer_after grammar plainConventions [unnamed, .file (textDisk text) "b.js"] unnamed
  obtain ⟨-, -, encoding, -⟩ :=
    answer_after grammar plainConventions [unnamed, .file (textDisk text) "b.js"] surrogate
  obtain ⟨points, offset, file, language?, entry, same, -, parser, gains⟩ := encoding ⟨0, 0, 0⟩ rfl
  obtain ⟨⟨rfl⟩, rfl, rfl⟩ := LintRequest.source.inj same
  cases parser
  exact ⟨unchanged (.unsupportedLanguage "ruby") rfl rfl, gains,
    holding (textDisk text) "./a.js" text .javascript (by decide) (by decide +kernel) (by rfl)⟩

/-- A request that fails can leave a parser behind that was not there before: the one for a text
with a surrogate. And the findings in the file `./a.js` name it `a.js`, while those in its text
name it as it was given. -/
theorem answer_changes_parsers :
    let grammar : Grammar := fun _ _ => directTree
    let text := "class A extends C{m(){this.setState(this.state)}}"
    let linter := ofConventions plainConventions
    let surrogate : LintRequest := .source (.text [.surrogate 0]) "a.js" none
    (linter.answer grammar surrogate).1 = .error (.unencodable ⟨0, 0, 0⟩) ∧
      (linter.answer grammar surrogate).2.parsers ≠ linter.parsers ∧
      (linter.answer grammar (.file (textDisk text) "./a.js")).1 ≠
        (linter.answer grammar (.source (.ofText text) "./a.js" none)).1 := by
  decide +kernel

end Linter

end StaleRead
