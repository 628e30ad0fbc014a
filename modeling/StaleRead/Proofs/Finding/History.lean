import StaleRead.Proofs.Finding.Order

/-! # The history of a log

A log is asked, one request after the other, to log a read or to list its findings. What it
has become says which reports were made and nothing else (`FindingLog.Recounts`): a report is
new exactly if none before it had its pair, and the findings are those of the first reports
with their pairs, so listing them has no effect (`FindingLog.answer_after_known`).

A report that fails because no message has its identifier makes no finding, but its pair counts
as logged. The log goes on as if the report had not been made, without all later reports of the
pair (`FindingLog.answers_after_failure`).
-/

namespace StaleRead

/-- A read in a source, to be logged on account of a site if one is given, with a message
given by its identifier. -/
structure LogReport where
  source : Source
  id : String
  read : Span
  site? : Option Span

namespace LogReport

/-- What tells a report from others. -/
def pair (report : LogReport) : Span × Option Span :=
  (report.read, report.site?)

/-- The finding that a report makes in a file. -/
def finding? (file : String) (report : LogReport) : Option Finding :=
  (Message.ofId? report.id).map fun message =>
    Finding.ofSpan report.source file message report.read

/-- Of some reports, the first ones with their pairs, in order. -/
def firsts : List LogReport → List LogReport
  | [] => []
  | report :: later => report :: (firsts later).filter (·.pair ≠ report.pair)

/-- One more report is a first one unless its pair was reported before. -/
theorem firsts_concat (reports : List LogReport) (report : LogReport) :
    firsts (reports ++ [report]) =
      if report.pair ∈ reports.map LogReport.pair then firsts reports
      else firsts reports ++ [report] := by
  induction reports with
  | nil => rfl
  | cons earliest later ih =>
      rw [List.cons_append, firsts, firsts, ih]
      by_cases known : report.pair ∈ later.map LogReport.pair
      · simp only [known, List.map_cons, List.mem_cons, or_true, ↓reduceIte]
      · by_cases same : report.pair = earliest.pair
        · rw [if_neg known, List.filter_append]
          simp [same]
        · rw [if_neg known, List.filter_append]
          simp [known, same]

end LogReport

/-- What a log can be asked for: to log a read, or to list its findings. -/
inductive LogRequest where
  | record (report : LogReport)
  | list

namespace LogRequest

/-- The report that a request makes. -/
def report? : LogRequest → Option LogReport
  | .record report => some report
  | .list => none

/-- The reports among some requests, in order. -/
def reports (requests : List LogRequest) : List LogReport :=
  requests.filterMap report?

/-- Whether a request reports a pair. -/
def concerns (pair : Span × Option Span) (request : LogRequest) : Bool :=
  request.report?.any (·.pair = pair)

end LogRequest

/-- What a log answers: whether a pair is new, or that no message has the identifier; or its
findings. -/
inductive LogAnswer where
  | logged (result : Except UnknownMessage Bool)
  | listed (findings : List Finding)

namespace FindingLog

/-- Log what is reported. -/
def record (log : FindingLog) (report : LogReport) : Except UnknownMessage Bool × FindingLog :=
  log.addById report.source report.id report.read report.site?

/-- The answer to a request, and the log after it. -/
def answer (log : FindingLog) : LogRequest → LogAnswer × FindingLog
  | .record report =>
      let (result, next) := log.record report
      (.logged result, next)
  | .list => (.listed log.sorted, log)

/-- The log after some requests. -/
def after (log : FindingLog) (requests : List LogRequest) : FindingLog :=
  requests.foldl (fun log request => (log.answer request).2) log

theorem after_cons (log : FindingLog) (request : LogRequest) (later : List LogRequest) :
    log.after (request :: later) = (log.answer request).2.after later :=
  rfl

/-- The answers to some requests, one after the other. -/
def answers (log : FindingLog) : List LogRequest → List LogAnswer
  | [] => []
  | request :: later => (log.answer request).1 :: answers (log.answer request).2 later

variable {log next : FindingLog} {file : String} {reports : List LogReport}
  {pair : Span × Option Span}

/-- A report of a logged pair has no effect. -/
theorem record_of_mem {report : LogReport} (logged : report.pair ∈ log.seen) :
    log.record report = (.ok false, log) := by
  have logged : (report.read, report.site?) ∈ log.seen := logged
  rw [record, addById]
  cases Message.ofId? report.id with
  | none => exact if_pos logged
  | some message => simp only [add, if_pos logged]

/-- A report of a new pair makes its finding, or fails. The pair is logged in either case. -/
theorem record_of_not_mem {report : LogReport} (fresh : report.pair ∉ log.seen) :
    log.record report =
      (match Message.ofId? report.id with
        | some _ => .ok true
        | none => .error ⟨report.id⟩,
      { log with
        seen := report.pair :: log.seen
        findings := log.findings ++ (report.finding? log.file).toList }) := by
  have fresh : (report.read, report.site?) ∉ log.seen := fresh
  rw [record, addById, LogReport.finding?]
  cases Message.ofId? report.id with
  | none => simp [fresh, LogReport.pair]
  | some message => simp [add, fresh, LogReport.pair]

/-- The log holds what was reported: all pairs, and the findings of the first reports with
their pairs. -/
structure Recounts (name : String) (reports : List LogReport) (log : FindingLog) : Prop where
  file : log.file = name
  seen : ∀ pair, pair ∈ log.seen ↔ pair ∈ reports.map LogReport.pair
  findings : log.findings = (LogReport.firsts reports).filterMap (LogReport.finding? name)

/-- One more report keeps the account. -/
theorem Recounts.record (recounts : log.Recounts file reports) (report : LogReport) :
    (log.record report).2.Recounts file (reports ++ [report]) := by
  by_cases known : report.pair ∈ log.seen
  · have reported := (recounts.seen _).mp known
    rw [record_of_mem known]
    refine ⟨recounts.file, fun pair => ?_, ?_⟩
    · rw [recounts.seen, List.map_append, List.mem_append, List.map_singleton,
        List.mem_singleton]
      exact (or_iff_left_of_imp fun same => same ▸ reported).symm
    · rw [recounts.findings, LogReport.firsts_concat, if_pos reported]
  · have unreported := fun reported => known ((recounts.seen _).mpr reported)
    rw [record_of_not_mem known]
    refine ⟨recounts.file, fun pair => ?_, ?_⟩
    · rw [List.mem_cons, recounts.seen, List.map_append, List.mem_append, List.map_singleton,
        List.mem_singleton, or_comm]
    · simp only [recounts.findings, recounts.file, LogReport.firsts_concat, if_neg unreported,
        List.filterMap_append, List.filterMap_cons, List.filterMap_nil]
      rfl

/-- Any requests keep the account. -/
theorem Recounts.after (recounts : log.Recounts file reports) (requests : List LogRequest) :
    (log.after requests).Recounts file (reports ++ LogRequest.reports requests) := by
  induction requests generalizing log reports with
  | nil =>
      rw [LogRequest.reports, List.filterMap_nil, List.append_nil]
      exact recounts
  | cons request later ih =>
      cases request with
      | record report =>
          have recorded := ih (recounts.record report)
          rwa [List.append_assoc] at recorded
      | list => exact ih recounts

/-- A read of `f(this.state)`, reported on account of a site if one is given. -/
def readReport (id : String) (site? : Option Span) : LogReport :=
  ⟨.ofText "f(this.state)", id, ⟨2, 12, "member_expression"⟩, site?⟩

/-- One log is another one in which a pair counts as logged on top, without a finding. -/
structure Marked (pair : Span × Option Span) (log marked : FindingLog) : Prop where
  fresh : pair ∉ log.seen
  file : marked.file = log.file
  findings : marked.findings = log.findings
  seen : ∀ other, other ∈ marked.seen ↔ other ∈ log.seen ∨ other = pair

variable {marked : FindingLog} {request : LogRequest}

theorem Marked.sorted_eq (mark : log.Marked pair marked) : marked.sorted = log.sorted := by
  rw [sorted, sorted, mark.findings]

/-- A report of the marked pair is answered as one that is not new, and has no effect. -/
theorem Marked.answer_of_concerns (mark : log.Marked pair marked)
    (concerns : request.concerns pair = true) :
    marked.answer request = (.logged (.ok false), marked) := by
  obtain ⟨report, made, same⟩ := (Option.any_eq_true _ _).mp concerns
  cases request with
  | list => cases made
  | record report =>
      cases made
      have logged : report.pair ∈ marked.seen := (mark.seen _).mpr (Or.inr (of_decide_eq_true same))
      simp only [answer, record_of_mem logged]

/-- A report of the pair is answered otherwise where it is not marked. -/
theorem Marked.ne_answer_of_concerns (mark : log.Marked pair marked)
    (concerns : request.concerns pair = true) :
    (log.answer request).1 ≠ .logged (.ok false) := by
  obtain ⟨report, made, same⟩ := (Option.any_eq_true _ _).mp concerns
  cases request with
  | list => cases made
  | record report =>
      cases made
      have fresh : report.pair ∉ log.seen := of_decide_eq_true same ▸ mark.fresh
      rw [answer, record_of_not_mem fresh]
      cases Message.ofId? report.id <;> simp

/-- Any other request is answered the same, and the pair stays marked. -/
theorem Marked.answer_of_not_concerns (mark : log.Marked pair marked)
    (other : request.concerns pair = false) :
    (marked.answer request).1 = (log.answer request).1 ∧
      (log.answer request).2.Marked pair (marked.answer request).2 := by
  cases request with
  | list => exact ⟨congrArg LogAnswer.listed mark.sorted_eq, mark⟩
  | record report =>
      have different : report.pair ≠ pair := of_decide_eq_false other
      by_cases logged : report.pair ∈ log.seen
      · have stillLogged := (mark.seen report.pair).mpr (Or.inl logged)
        rw [answer, answer, record_of_mem logged, record_of_mem stillLogged]
        exact ⟨rfl, mark⟩
      · have notMarked : report.pair ∉ marked.seen := fun seen =>
          ((mark.seen report.pair).mp seen).elim logged different
        rw [answer, answer, record_of_not_mem logged, record_of_not_mem notMarked]
        refine ⟨rfl, ⟨?_, mark.file, ?_, fun pair => ?_⟩⟩
        · exact fun seen => (List.mem_cons.mp seen).elim different.symm mark.fresh
        · rw [mark.findings, mark.file]
        · rw [List.mem_cons, List.mem_cons, mark.seen, or_assoc]

/-- A log with a marked pair goes on as the one without the mark does, without the reports of
the pair. -/
theorem Marked.after (mark : log.Marked pair marked) (later : List LogRequest) :
    (log.after (later.filter (!·.concerns pair))).Marked pair (marked.after later) := by
  induction later generalizing log marked with
  | nil => exact mark
  | cons request later ih =>
      rw [after_cons, List.filter_cons]
      cases concerns : request.concerns pair with
      | true =>
          rw [mark.answer_of_concerns concerns]
          exact ih mark
      | false => exact ih (mark.answer_of_not_concerns concerns).2

/-- The mark is noticed exactly by the requests that report its pair. -/
theorem Marked.answers_eq_iff (mark : log.Marked pair marked) (later : List LogRequest) :
    marked.answers later = log.answers later ↔
      ∀ request ∈ later, request.concerns pair = false := by
  induction later generalizing log marked with
  | nil => simp [answers]
  | cons request later ih =>
      rw [answers, answers, List.cons_eq_cons, List.forall_mem_cons]
      cases concerns : request.concerns pair with
      | true =>
          rw [mark.answer_of_concerns concerns]
          have differs := mark.ne_answer_of_concerns concerns
          simp [differs.symm]
      | false =>
          obtain ⟨same, kept⟩ := mark.answer_of_not_concerns concerns
          rw [ih kept]
          simp [same]

/-- **What a failing report leaves behind.** A report that fails has no message with its
identifier. It makes no finding, but its pair counts as logged from then on: later reports of
the pair are answered as not new and make no finding, whatever their message, and all else is
as if neither they nor the failing report were made. So later requests are answered as without
the failing report exactly if none of them reports its pair. -/
theorem answers_after_failure (log : FindingLog) (report : LogReport) {error : UnknownMessage}
    (failed : (log.answer (.record report)).1 = .logged (.error error)) :
    let marked := (log.answer (.record report)).2
    error.id = report.id ∧ marked.sorted = log.sorted ∧
    ∀ later : List LogRequest,
      (marked.answers later = log.answers later ↔
        ∀ request ∈ later, request.concerns report.pair = false) ∧
      ∀ request, ((marked.after later).answer request).1 =
        if request.concerns report.pair then .logged (.ok false)
        else ((log.after (later.filter (!·.concerns report.pair))).answer request).1 := by
  intro marked
  have fresh : report.pair ∉ log.seen := by
    intro logged
    rw [answer, record_of_mem logged] at failed
    cases failed
  have unknown : Message.ofId? report.id = none ∧ error.id = report.id := by
    rw [answer, record_of_not_mem fresh] at failed
    cases found : Message.ofId? report.id with
    | none =>
        rw [found] at failed
        cases failed
        exact ⟨rfl, rfl⟩
    | some message =>
        rw [found] at failed
        cases failed
  have mark : log.Marked report.pair marked := by
    simp only [marked, answer, record_of_not_mem fresh, LogReport.finding?, unknown.1]
    refine ⟨fresh, rfl, List.append_nil _, fun other => ?_⟩
    rw [List.mem_cons, or_comm]
  refine ⟨unknown.2, mark.sorted_eq, fun later => ⟨mark.answers_eq_iff later, fun request => ?_⟩⟩
  have kept := mark.after later
  cases concerns : request.concerns report.pair with
  | true => rw [kept.answer_of_concerns concerns, if_pos rfl]
  | false => exact (kept.answer_of_not_concerns concerns).1

theorem answers_after_missingMessage :
    ((ofFile "a.js").answer (.record (readReport "missing" none))).1 =
        .logged (.error ⟨"missing"⟩) ∧
      (((ofFile "a.js").answer (.record (readReport "missing" none))).2.answer
        (.record (readReport "useCallback" none))).1 = .logged (.ok false) ∧
      ((ofFile "a.js").answer (.record (readReport "useCallback" none))).1 =
        .logged (.ok true) := by
  have failed : ((ofFile "a.js").answer (.record (readReport "missing" none))).1 =
      .logged (.error ⟨"missing"⟩) := rfl
  obtain ⟨-, -, later⟩ := answers_after_failure (ofFile "a.js") (readReport "missing" none) failed
  exact ⟨failed, (later []).2 (.record (readReport "useCallback" none)), rfl⟩

end FindingLog

end StaleRead
