import NextBallUp.Lib.Strings
import NextBallUp.Events.Store

/-!
# The import of candidate tags

When the worker has rendered a demo preview, it replaces the events that it imported for the video
before by the candidates of the report that the tagger wrote. If there is no valid report, the
events are deleted all the same.

## Main definitions

* `assertCandidateReportSafe`: the search for forbidden tokens in the text of the report
* `validatedCandidateItems`: the candidates of a report
* `replaceAlphaCandidateEvents`, `syncAlphaCandidateTags`: the import
* `generatePreview`: the end of a rendering, in one transaction

## Main results

* `replaceAlphaCandidateEvents_apply`: the tables after an import, whether it returns or raises

## What is deliberately absent

The columns of a video that tell of its preview, the times of the job, and the audit log.
-/

namespace NextBallUp.Events

variable (U : Unicode)

/-- `_FORBIDDEN_CANDIDATE_REPORT_TOKENS` -/
def forbiddenCandidateReportTokens : List String :=
  ["http://", "https://", "x-amz-", "signature=", "credential=", "bearer ", "cookie:", "s3_secret",
    "secret_key", "access_key"]

/-- `_ALPHA_CANDIDATE_EVENT_TYPES` -/
def alphaCandidateEventTypes : List VideoEventType := [.shotAttempt, .shotMade, .rebound, .pass]

/-- The exceptions of the import. -/
inductive ImportError
  | valueError (message : String)
  | unreadable
  | notJson
  | recursionError
  | databaseError
  deriving DecidableEq, Repr

/-- A program of the worker. -/
abbrev Import (α : Type) := Transaction Db Unit ImportError α

/-- The report of the tagger: its text, unless the file cannot be read. -/
structure DemoPreviewArtifact where
  candidateTagsPath : Option (Option (List ℕ))
  candidateTagsError : Option String

structure CandidateItem where
  candidateId : List CodePoint
  eventType : VideoEventType
  startTimeMs : ℤ
  endTimeMs : ℤ
  predictedActions : List (List CodePoint)

/-! ### The report -/

/-- `_assert_candidate_report_safe` -/
def assertCandidateReportSafe (rawReport : List ℕ) : Except ImportError Unit :=
  if forbiddenCandidateReportTokens.any fun token => token.codePoints <:+: U.lower rawReport then
    .error (.valueError "Alpha candidate report contains forbidden sensitive material")
  else .ok ()

/-- `VideoEventType(text)` -/
def VideoEventType.ofText (text : List ℕ) : Option VideoEventType :=
  [.shotAttempt, .shotMade, .rebound, .pass].find? fun t => t.value.codePoints = text

/-- One turn of the loop of `_validated_candidate_items`. -/
def candidateItem (raw : Json CodePoint) : Option CandidateItem := do
  let fields ← raw.asObj
  guard (fields.get "review_required").isTrue
  guard (fields.get "commercial_use_allowed").isFalse
  let eventType ← VideoEventType.ofText (codes (U.str (fields.get "event_type")))
  guard (eventType ∈ alphaCandidateEventTypes)
  let start ← (fields.get "start_time_ms").asInt
  let stop ← (fields.get "end_time_ms").asInt
  guard (start < stop)
  let candidateId ← (fields.get "candidate_id").asStr
  guard (candidateId ≠ [])
  let actions := (fields.get "predicted_actions").asArr.getD []
  let texts := (actions.take 12).map U.str
  some
    { candidateId := candidateId.take 128
      eventType := eventType
      startTimeMs := max 0 start
      endTimeMs := max 0 stop
      predictedActions := (texts.filter fun text => !U.isBlank (codes text)).map (·.take 64) }

/-- A check of the report, with the message of its error. -/
def require (condition : Bool) (message : String) : Except ImportError Unit :=
  if condition then .ok () else .error (.valueError message)

/-- `_validated_candidate_items` -/
def validatedCandidateItems (report : Json.Fields CodePoint) :
    Except ImportError (List CandidateItem) := do
  require ((report.get "schema_version").isText "alpha_video_candidate_tags_v1")
    "Alpha candidate report schema is not supported"
  require ((report.get "source").isText alphaCandidateSource)
    "Alpha candidate report source is not supported"
  let some lineage := (report.get "lineage").asObj
    | throw (.valueError "Alpha candidate report lineage is missing")
  require (lineage.get "restricted_source").isTrue
    "Alpha candidate report must be marked restricted_source=true"
  require ((lineage.get "demo_only").isTrue && (report.get "demo_only").isTrue)
    "Alpha candidate report must be demo_only=true"
  require ((lineage.get "review_required").isTrue && (report.get "review_required").isTrue)
    "Alpha candidate report must be review_required=true"
  require ((lineage.get "commercial_use_allowed").isFalse &&
      (report.get "commercial_use_allowed").isFalse)
    "Alpha candidate report must be commercial_use_allowed=false"
  require (report.get "not_production_analytics").isTrue
    "Alpha candidate report must be marked not production analytics"
  require (report.get "blocker").isNone "Alpha candidate report has a blocker"
  let some rawCandidates := (report.get "candidates").asArr
    | throw (.valueError "Alpha candidate report candidates must be a list")
  pure ((rawCandidates.take 100).filterMap (candidateItem U))

/-! ### The events -/

/-- The event of a candidate, before the table gives it a primary key. -/
def candidateEvent (video : Video) (shotClockEnabled : Bool) (createdAt : Time)
    (candidate : CandidateItem) : VideoEvent :=
  let eventTimeMs := (candidate.startTimeMs + candidate.endTimeMs) / 2
  let preMs := max 1000 (eventTimeMs - candidate.startTimeMs)
  let postMs := max 1000 (candidate.endTimeMs - eventTimeMs)
  { id := 0
    videoId := video.id
    teamId := video.teamId
    eventType := candidate.eventType
    eventTimeMs := eventTimeMs
    clipStartTimeMs := candidate.startTimeMs
    clipEndTimeMs := candidate.endTimeMs
    outputFrame := estimatedOutputFrame video eventTimeMs
    shotClockEnabled := shotClockEnabled
    confidence := none
    reviewStatus := .needsReview
    eventMetadata := dict
      [("source", text alphaCandidateSource),
        ("candidate_id", .str (codes candidate.candidateId)),
        ("not_production_analytics", .bool true),
        ("review_copy",
          text "Review required. Alpha candidate only. Not production analytics."),
        ("predicted_actions", .arr (candidate.predictedActions.map fun a => .str (codes a))),
        ("clip_pre_ms", .int preMs),
        ("clip_post_ms", .int postMs)]
    createdAt := createdAt }

/-- `_delete_alpha_candidate_events` -/
def deleteAlphaCandidateEvents (video : Video) : Import ℕ := do
  let existing ← selectEvents fun row => row.videoId = video.id
  let deleted := existing.filter fun row => row.hasSource alphaCandidateSource
  deleteEvents (deleted.map VideoEvent.id)
  pure deleted.length

/-- The tables without the events that were imported for the video. -/
def Db.withoutCandidates (db : Db) (video : Video) : Db :=
  db.delete (((db.events.filter fun row => row.videoId = video.id).filter fun row =>
    row.hasSource alphaCandidateSource).map VideoEvent.id)

theorem mem_withoutCandidates {db : Db} {video : Video} {row : VideoEvent} :
    row ∈ (db.withoutCandidates video).events ↔
      row ∈ db.events ∧ ¬(row.videoId = video.id ∧ row.hasSource alphaCandidateSource) := by
  unfold Db.withoutCandidates Db.delete
  simp only [List.mem_filter, List.mem_map, decide_eq_true_eq, not_exists, not_and]
  refine and_congr_right fun hrow => ⟨fun h hv hs => h row ⟨⟨hrow, hv⟩, hs⟩ rfl, ?_⟩
  rintro h r ⟨⟨hr, hv⟩, hs⟩ hid
  obtain rfl := List.inj_on_of_nodup_map db.nodup_id hr hrow hid
  exact h hv hs

theorem shotClockEnabled_withoutCandidates (db : Db) (video : Video) :
    (db.withoutCandidates video).shotClockEnabled = db.shotClockEnabled := rfl

theorem deleteAlphaCandidateEvents_apply (video : Video) (s : Transaction.Session Db Unit) :
    ∃ n, deleteAlphaCandidateEvents video s =
      (.ok n, { s with working := s.working.withoutCandidates video }) := ⟨_, rfl⟩

/-- `_replace_alpha_candidate_events` -/
def replaceAlphaCandidateEvents (video : Video) (now : Time) (report : Json.Fields CodePoint) :
    Import ℕ := do
  let _ ← deleteAlphaCandidateEvents video
  let shotClockEnabled ← selectShotClockEnabled video.id
  let candidates ← ofExcept (validatedCandidateItems U report)
  let inserted ← insertEvents .databaseError
    (candidates.map (candidateEvent video shotClockEnabled now))
  pure inserted.length

/-- The imported events are gone in any case; new ones are there if the import returns. -/
theorem replaceAlphaCandidateEvents_apply (video : Video) (now : Time)
    (report : Json.Fields CodePoint) (s : Transaction.Session Db Unit) :
    replaceAlphaCandidateEvents U video now report s =
      match validatedCandidateItems U report with
      | .error e => (.error e, { s with working := s.working.withoutCandidates video })
      | .ok items =>
        match (s.working.withoutCandidates video).insert
            (items.map (candidateEvent video (s.working.shotClockEnabled video.id) now)) with
        | some db => (.ok items.length, { s with working := db })
        | none =>
          (.error .databaseError, { s with working := s.working.withoutCandidates video }) := by
  unfold replaceAlphaCandidateEvents
  obtain ⟨n, hn⟩ := deleteAlphaCandidateEvents_apply video s
  refine (Transaction.bind_ok hn).trans
    ((Transaction.bind_ok (selectShotClockEnabled_apply _ _)).trans ?_)
  cases validatedCandidateItems U report with
  | error e => rfl
  | ok items =>
    refine (Transaction.bind_ok rfl).trans ?_
    rw [Transaction.bind_apply, insertEvents_apply]
    dsimp only
    rw [shotClockEnabled_withoutCandidates]
    cases (s.working.withoutCandidates video).insert
      (items.map (candidateEvent video (s.working.shotClockEnabled video.id) now)) with
    | none => rfl
    | some db =>
      refine Prod.ext ?_ rfl
      simp [Db.numbered, Transaction.pure_apply]

/-- `_load_or_create_events_job` -/
def loadOrCreateEventsJob (video : Video) (requestId : TaskId) : Import EventsJob := do
  let existing ← selectEventsJob video.id
  let job : EventsJob :=
    { status := .running
      progressPercent := 0
      celeryTaskId := requestId
      errorMessage := none
      outputs := existing.bind EventsJob.outputs }
  setEventsJob video.id job
  pure job

/-- `_mark_events_job_failed` -/
def markEventsJobFailed (video : Video) (job : EventsJob) (failure : ReportFailure) :
    Import Unit := do
  let _ ← deleteAlphaCandidateEvents video
  setEventsJob video.id { job with
    status := .failed
    progressPercent := 100
    errorMessage := some failure
    outputs := some 0 }

/-- What the job tells of an exception that the import handles. -/
def ImportError.failure : ImportError → Option ReportFailure
  | .valueError message => some (.invalid message)
  | .unreadable => some .unreadable
  | .notJson => some .notJson
  | .recursionError | .databaseError => none

/-- The report is read, searched, decoded and imported. -/
def importReport (recursionLimit : ℕ) (video : Video) (now : Time) (file : Option (List ℕ)) :
    Import ℕ := do
  let some rawReport := file | throw .unreadable
  ofExcept (assertCandidateReportSafe U rawReport)
  match JsonText.loads recursionLimit rawReport with
  | .ok (.obj report) => replaceAlphaCandidateEvents U video now report
  | .ok _ => throw (.valueError "Alpha candidate report must be a JSON object")
  | .error .valueError => throw .notJson
  | .error .recursionError => throw .recursionError

/-- `_sync_alpha_candidate_tags`: how many events it has imported. -/
def syncAlphaCandidateTags (recursionLimit : ℕ) (alphaCandidateTagsEnabled : Bool) (video : Video)
    (artifact : DemoPreviewArtifact) (requestId : TaskId) (now : Time) : Import (Option ℕ) := do
  if !alphaCandidateTagsEnabled then
    return none
  if artifact.candidateTagsPath.isNone && artifact.candidateTagsError.isNone then
    return none
  let job ← loadOrCreateEventsJob video requestId
  match artifact.candidateTagsError, artifact.candidateTagsPath with
  | some message, _ =>
    markEventsJobFailed video job (.candidateTagsError message)
    return none
  | none, none =>
    markEventsJobFailed video job .missing
    return none
  | none, some file =>
    let inserted ← tryCatch (some <$> importReport U recursionLimit video now file) fun e => do
      let some failure := e.failure | throw e
      markEventsJobFailed video job failure
      pure none
    if let some events := inserted then
      setEventsJob video.id { job with
        status := .completed
        progressPercent := 100
        errorMessage := none
        outputs := some events }
    return inserted

/-- The end of a rendering of the preview: the tags are imported, and all is committed. -/
def generatePreview (recursionLimit : ℕ) (alphaCandidateTagsEnabled : Bool) (video : Video)
    (artifact : DemoPreviewArtifact) (requestId : TaskId) (now : Time) : Import (Option ℕ) := do
  let inserted ← syncAlphaCandidateTags U recursionLimit alphaCandidateTagsEnabled video artifact
    requestId now
  commit
  pure inserted

/-- The text of a report with one candidate, whose identifier is spelled like this. -/
def sampleReportText (candidateId : String) : List ℕ := List.flatMap String.codePoints
  ["\x7b\"schema_version\":", "\"alpha_video_candidate_tags_v1\",", "\"source\":",
    "\"restricted_bard_lora_", "alpha_video_windows\",", "\"lineage\":\x7b\"demo_only\":true,",
    "\"review_required\":true,", "\"commercial_use_allowed\":false,",
    "\"restricted_source\":true\x7d,", "\"review_required\":true,", "\"demo_only\":true,",
    "\"commercial_use_allowed\":false,", "\"not_production_analytics\":true,",
    "\"blocker\":null,", "\"candidates\":[\x7b", "\"candidate_id\":\"", candidateId, "\",",
    "\"event_type\":\"shot_attempt\",", "\"start_time_ms\":4000,", "\"end_time_ms\":12000,",
    "\"predicted_actions\":[\"3PT Shot\"],", "\"review_required\":true,",
    "\"commercial_use_allowed\":false", "\x7d]\x7d"]

end NextBallUp.Events
