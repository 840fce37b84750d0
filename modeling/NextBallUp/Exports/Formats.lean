import NextBallUp.Consents
import NextBallUp.Lib.Csv
import NextBallUp.Lib.DecimalText
import NextBallUp.Lib.JsonDumps
import NextBallUp.Lib.Uuid
import NextBallUp.Lib.Xml

/-!
# The files of an export

What `GET /videos/{video_id}/events/export` writes, character by character: the rows as CSV, as JSON
and as XML for SportsCode, and the package of all of them with the review feedback.

## Main definitions

* `StoredVideo`, `StoredEvent`: the rows, with values of the types of their columns
* `safeEventExportRow`: the `dict` of an event
* `renderEventCsv`, `renderEventManifest`, `renderReviewFeedbackManifest`, `renderSportscodeXml`:
  the files
* `renderEventPackage`: the members of the archive

## What is deliberately absent

The container and the compression of the archive, and the headers of the response.
-/

namespace NextBallUp.Exports

open Events (VideoEvent VideoEventSourceValue ReviewStatus)
open JsonText (dumpsWith)

/-! ### Rows -/

/-- A row of `videos`. -/
structure StoredVideo where
  row : Events.Video
  id_lt : row.id < 2 ^ 128
  teamId_lt : row.teamId < 2 ^ 128

def StoredVideo.uuid (video : StoredVideo) : Uuid := ⟨video.row.id, video.id_lt⟩

def StoredVideo.teamUuid (video : StoredVideo) : Uuid := ⟨video.row.teamId, video.teamId_lt⟩

/-- A row of `video_events`. Its time of creation is the instant of a `datetime`. -/
structure StoredEvent where
  row : VideoEvent
  createdAt : Datetime
  id_lt : row.id < 2 ^ 128
  createdAt_eq : row.createdAt = createdAt.instant

def StoredEvent.uuid (event : StoredEvent) : Uuid := ⟨event.row.id, event.id_lt⟩

/-- A row of `team_privacy_consents`. -/
structure StoredConsent where
  row : Consents.TeamPrivacyConsent
  id_lt : row.id < 2 ^ 128

def StoredConsent.uuid (consent : StoredConsent) : Uuid := ⟨consent.row.id, consent.id_lt⟩

/-- The values of `VideoEventSourceValue`. -/
def sourceText : VideoEventSourceValue → String
  | .manual => "manual"
  | .alphaModel => "alpha_model"

/-- `_EVENT_EXPORT_NOTES` -/
def eventExportNotes : String :=
  "Review only. Not production analytics. Direct Hudl cloud export is not implemented."

/-- `_EVENT_EXPORT_FIELDS` -/
def eventExportFields : List String :=
  ["video_id", "event_id", "label", "event_type", "review_status", "source", "clip_start_seconds",
    "clip_end_seconds", "event_seconds", "clip_start_time_ms", "clip_end_time_ms", "event_time_ms",
    "created_at", "notes"]

/-- `str | int | float` -/
inductive Value
  | str (s : List ℕ)
  | int (n : ℤ)
  | float (x : Double)

/-- `dict[str, str | int | float]` -/
abbrev Row := List (String × Value)

/-- `row[key]` -/
def Row.at (row : Row) (key : String) : Value := (row.lookup key).getD (.str [])

/-- `str(value)` -/
def Value.text : Value → List ℕ
  | .str s => s
  | .int n => decimalInt n
  | .float x => x.repr

/-- `float(value)`, of a number. -/
def Value.toFloat : Value → Double
  | .str _ => .nan
  | .int n => .ofRat n
  | .float x => x

def Value.json : Value → Json ℕ
  | .str s => .str s
  | .int n => .int n
  | .float x => .float x.repr

/-- `_seconds` -/
def seconds (valueMs : ℤ) : Double := (Double.ofRat (valueMs / 1000)).roundTo 3

/-- `_safe_event_export_row` -/
def safeEventExportRow (event : StoredEvent) (video : StoredVideo) : Row :=
  let row := Events.safeEventExportRow event.row video.row
  [("video_id", .str video.uuid.str),
    ("event_id", .str event.uuid.str),
    ("label", .str row.label.codePoints),
    ("event_type", .str row.eventType.value.codePoints),
    ("review_status", .str row.reviewStatus.value.codePoints),
    ("source", .str (sourceText row.source).codePoints),
    ("clip_start_seconds", .float (seconds row.clipStartTimeMs)),
    ("clip_end_seconds", .float (seconds row.clipEndTimeMs)),
    ("event_seconds", .float (seconds row.eventTimeMs)),
    ("clip_start_time_ms", .int row.clipStartTimeMs),
    ("clip_end_time_ms", .int row.clipEndTimeMs),
    ("event_time_ms", .int row.eventTimeMs),
    ("created_at", .str event.createdAt.isoformat),
    ("notes", .str eventExportNotes.codePoints)]

/-! ### Files -/

/-- `_render_event_csv` -/
def renderEventCsv (rows : List Row) : List ℕ :=
  Csv.write (eventExportFields.map String.codePoints ::
    rows.map fun row => eventExportFields.map fun field => (row.at field).text)

/-- A `dict` whose keys are texts of the source. -/
def dict (fields : List (String × Json ℕ)) : Json ℕ := .obj (Events.dict fields)

/-- An event of the manifest. -/
def eventItem (row : Row) : Json ℕ := dict (row.map fun f => (f.1, f.2.json))

/-- The payload of `_render_event_manifest`. -/
def eventManifest (video : StoredVideo) (reviewStatus : ReviewStatus) (generatedAt : Datetime)
    (rows : List Row) : List (String × Json ℕ) :=
  [("schema_version", Events.text "nextballup_alpha_event_export_v1"),
    ("video_id", .str video.uuid.str),
    ("review_status", Events.text reviewStatus.value),
    ("generated_at", .str generatedAt.isoformat),
    ("not_production_analytics", .bool true),
    ("direct_hudl_cloud_export_implemented", .bool false),
    ("includes_video_bytes", .bool false),
    ("events", .arr (rows.map eventItem))]

/-- `_render_event_manifest` -/
def renderEventManifest (video : StoredVideo) (reviewStatus : ReviewStatus) (generatedAt : Datetime)
    (rows : List Row) : List ℕ :=
  dumpsWith [] (dict (eventManifest video reviewStatus generatedAt rows))

/-- The `governance` of the review feedback. -/
def governanceFields (consent : Option StoredConsent) : List (String × Json ℕ) :=
  let governance := Consents.governance (consent.map StoredConsent.row)
  [("review_only", .bool governance.reviewOnly),
    ("not_production_analytics", .bool governance.notProductionAnalytics),
    ("includes_video_bytes", .bool governance.includesVideoBytes),
    ("includes_signed_urls", .bool governance.includesSignedUrls),
    ("commercial_training_allowed", .bool governance.commercialTrainingAllowed),
    ("commercial_training_consent_id",
      if governance.commercialTrainingAllowed then
        consent.elim .null fun consent => .str consent.uuid.str
      else .null),
    ("global_model_training_requires_operator_rights_review",
      .bool governance.globalModelTrainingRequiresOperatorRightsReview)]

/-- An example of the review feedback. -/
def exampleFields (row : Row) : List (String × Json ℕ) :=
  [("event_id", (row.at "event_id").json),
    ("video_id", (row.at "video_id").json),
    ("label", (row.at "event_type").json),
    ("review_status", (row.at "review_status").json),
    ("accepted", .bool ((row.at "review_status").json.isText ReviewStatus.approved.value)),
    ("source", (row.at "source").json),
    ("clip_start_time_ms", (row.at "clip_start_time_ms").json),
    ("clip_end_time_ms", (row.at "clip_end_time_ms").json),
    ("event_time_ms", (row.at "event_time_ms").json)]

/-- The payload of `_render_review_feedback_manifest`. -/
def reviewFeedbackManifest (video : StoredVideo) (reviewStatus : ReviewStatus)
    (generatedAt : Datetime) (rows : List Row) (consent : Option StoredConsent) :
    List (String × Json ℕ) :=
  [("schema_version", Events.text "nextballup_alpha_review_feedback_v1"),
    ("video_id", .str video.uuid.str),
    ("team_id", .str video.teamUuid.str),
    ("review_status", Events.text reviewStatus.value),
    ("generated_at", .str generatedAt.isoformat),
    ("governance", dict (governanceFields consent)),
    ("examples", .arr (rows.map fun row => dict (exampleFields row)))]

/-- `_render_review_feedback_manifest` -/
def renderReviewFeedbackManifest (video : StoredVideo) (reviewStatus : ReviewStatus)
    (generatedAt : Datetime) (rows : List Row) (consent : Option StoredConsent) : List ℕ :=
  dumpsWith [] (dict (reviewFeedbackManifest video reviewStatus generatedAt rows consent))

/-- An element with a text. -/
def leaf (tag : String) (text : List ℕ) : Xml.Element := .mk tag.codePoints [] text

/-- An element with children, before it is indented. -/
def branch (tag : String) (children : List Xml.Element) : Xml.Element :=
  .mk tag.codePoints (children.map fun child => ([], child)) []

/-- `ET.SubElement(instance, "label")`, with its two texts. -/
def labelElement (group : String) (text : List ℕ) : Xml.Element :=
  branch "label" [leaf "group" group.codePoints, leaf "text" text]

/-- `ET.SubElement(all_instances, "instance")`, with all that is put into it. -/
def instanceElement (row : Row) (index : ℕ) : Xml.Element :=
  branch "instance"
    [leaf "ID" (decimal index),
      leaf "start" ((row.at "clip_start_seconds").toFloat.toFixed 3),
      leaf "end" ((row.at "clip_end_seconds").toFloat.toFixed 3),
      leaf "code" (row.at "label").text,
      labelElement "NextBallUp review" (row.at "review_status").text,
      labelElement "NextBallUp source" (row.at "source").text]

/-- The tree of `_render_sportscode_xml`. -/
def sportscodeTree (rows : List Row) : Xml.Element :=
  branch "file" [branch "ALL_INSTANCES" ((rows.zipIdx 1).map fun r => instanceElement r.1 r.2)]

/-- `_render_sportscode_xml` -/
def renderSportscodeXml (rows : List Row) : List ℕ :=
  Xml.declaration ++ 10 :: (((sportscodeTree rows).indent 0).tostring ++ [10])

/-- `_EXPORT_README` -/
def exportReadme : String :=
  "NextBallUp alpha timeline export\n\n" ++
  "This package contains reviewed candidate clip windows only. It does not include\n" ++
  "raw video, signed playback URLs, storage keys, model prompts, private model\n" ++
  "artifact paths, or internal restricted-source lineage.\n\n" ++
  "Files:\n" ++
  "- reviewed_windows.csv: coach-facing timeline rows.\n" ++
  "- manifest.json: app-neutral timeline manifest.\n" ++
  "- sportscode.xml: Sportscode-style XML timeline for import testing.\n" ++
  "- review_feedback.json: review labels for future model-evaluation/training\n" ++
  "  pipelines, gated by the consent flags inside the file.\n\n" ++
  "Direct Hudl cloud upload is not implemented. Validate imports in your editing\n" ++
  "software before relying on an export in a production workflow.\n"

/-- `_render_event_package`: the names and texts of the members. -/
def renderEventPackage (video : StoredVideo) (reviewStatus : ReviewStatus) (generatedAt : Datetime)
    (rows : List Row) (consent : Option StoredConsent) : List (String × List ℕ) :=
  [("README.txt", exportReadme.codePoints),
    ("reviewed_windows.csv", renderEventCsv rows),
    ("manifest.json", renderEventManifest video reviewStatus generatedAt rows),
    ("sportscode.xml", renderSportscodeXml rows),
    ("review_feedback.json",
      renderReviewFeedbackManifest video reviewStatus generatedAt rows consent)]

end NextBallUp.Exports
