import NextBallUp.Events.Rows
import Mathlib.Data.Rat.Cast.Order
import Mathlib.Tactic.FieldSimp

/-!
# Windows of the listing

How the API derives the window of an event for its listing and its exports, and how it resolves a
window that a coach asks for.

## Main definitions

* `windowFromEvent`: the window of a row, from its columns or its metadata
* `resolveClipWindow`: the window that a coach asks for, or the error
* `videoEventSummary`, `safeEventExportRow`, `sportscodeInstance`: an event in the listing, in the
  CSV and JSON exports, and in the export for SportsCode

## Main results

* `resolveClipWindow_ok`: what a resolved window satisfies
* `showsWindow_iff`: listing and exports show one window

## What is deliberately absent

The texts of the exports that do not depend on the event, and how numbers are written: the seconds
of an export have three decimals, which hold them exactly.
-/

namespace NextBallUp.Events

variable {δ : Type} [Arithmetic δ] {row : VideoEvent} {video : VideoOf δ}

/-- `_DEFAULT_CLIP_PRE_MS` -/
def defaultClipPreMs : ℤ := 4000

/-- `_DEFAULT_CLIP_POST_MS` -/
def defaultClipPostMs : ℤ := 6000

/-- `_MAX_REVIEW_WINDOW_MS` -/
def maxReviewWindowMs : ℤ := 60000

/-- The errors that the routes of the events raise. -/
inductive ApiError
  | notFound (message : String)
  | authorizationDenied
  | accountNotVerified
  | conflict (message : String) (currentStatus : VideoStatus)
  | validationFailed (message : String) (details : List (String × Option ℤ))
  | invalidReviewStatus (message : String) (reviewStatus : ReviewStatus)
  /-- The database refuses a statement, which the route does not handle. -/
  | databaseError
  deriving DecidableEq, Repr

/-! ### The window of a row -/

/-- `_clamp_clip_time` -/
def clampClipTime (value : ℤ) (durationMs : Option ℤ) : ℤ :=
  let clamped := max 0 value
  match durationMs with
  | some duration => min clamped duration
  | none => clamped

/-- `_window_from_event` -/
def windowFromEvent (row : VideoEvent) (video : VideoOf δ) : ℤ × ℤ :=
  let clamp value := clampClipTime value (durationMs video)
  match row.clipStartTimeMs, row.clipEndTimeMs with
  | some start, some stop => (clamp start, clamp stop)
  | _, _ =>
    match (row.eventMetadata.get "clip_start_time_ms").asStrictInt,
      (row.eventMetadata.get "clip_end_time_ms").asStrictInt with
    | some start, some stop => (clamp start, clamp stop)
    | _, _ =>
      let pre := (row.eventMetadata.get "clip_pre_ms").asStrictInt.getD defaultClipPreMs
      let post := (row.eventMetadata.get "clip_post_ms").asStrictInt.getD defaultClipPostMs
      let start := clamp (row.eventTimeMs - pre)
      let stop := clamp (row.eventTimeMs + post)
      (start, if stop ≤ start then clamp (start + 1000) else stop)

/-- `_resolve_clip_window` -/
def resolveClipWindow (eventTimeMs : ℤ) (durationMs clipStartTimeMs clipEndTimeMs : Option ℤ) :
    Except ApiError (ℤ × ℤ) :=
  if clipStartTimeMs.isNone ≠ clipEndTimeMs.isNone then
    .error (.validationFailed "Clip review windows require both start and end timestamps"
      [("clip_start_time_ms", clipStartTimeMs), ("clip_end_time_ms", clipEndTimeMs)])
  else
    let start := clipStartTimeMs.getD (max 0 (eventTimeMs - defaultClipPreMs))
    let stop := clipEndTimeMs.getD (eventTimeMs + defaultClipPostMs)
    let start := clampClipTime start durationMs
    let stop := clampClipTime stop durationMs
    if stop ≤ start then
      .error (.validationFailed "Clip review window start must be before the end"
        [("clip_start_time_ms", start), ("clip_end_time_ms", stop)])
    else if ¬(start ≤ eventTimeMs ∧ eventTimeMs ≤ stop) then
      .error (.validationFailed "Event timestamp must sit inside the clip review window"
        [("event_time_ms", eventTimeMs), ("clip_start_time_ms", start), ("clip_end_time_ms", stop)])
    else if maxReviewWindowMs < stop - start then
      .error (.validationFailed "Clip review windows cannot exceed 60 seconds"
        [("clip_start_time_ms", start), ("clip_end_time_ms", stop),
          ("max_window_ms", maxReviewWindowMs)])
    else .ok (start, stop)

theorem clampClipTime_nonneg {duration : Option ℤ} (h : ∀ d ∈ duration, 0 ≤ d) (value : ℤ) :
    0 ≤ clampClipTime value duration := by
  cases duration with
  | none => exact le_max_left 0 value
  | some d => exact le_min (le_max_left 0 value) (h d rfl)

theorem clampClipTime_le {d : ℤ} (value : ℤ) : clampClipTime value (some d) ≤ d :=
  min_le_right _ _

/-- A time within the video is left as it is. -/
theorem clampClipTime_eq {value : ℤ} {duration : Option ℤ} (h : 0 ≤ value)
    (hd : ∀ d ∈ duration, value ≤ d) : clampClipTime value duration = value := by
  cases duration with
  | none => exact max_eq_right h
  | some d =>
    show min (max 0 value) d = value
    rw [max_eq_right h, min_eq_left (hd d rfl)]

theorem clampClipTime_idem {duration : Option ℤ} (h : ∀ d ∈ duration, 0 ≤ d) (value : ℤ) :
    clampClipTime (clampClipTime value duration) duration = clampClipTime value duration := by
  refine clampClipTime_eq (clampClipTime_nonneg h value) fun d hd => ?_
  rw [hd]
  exact clampClipTime_le value

theorem windowFromEvent_of_columns {start stop : ℤ} (hs : row.clipStartTimeMs = some start)
    (he : row.clipEndTimeMs = some stop) :
    windowFromEvent row video =
      (clampClipTime start (durationMs video), clampClipTime stop (durationMs video)) := by
  rw [windowFromEvent, hs, he]

theorem windowFromEvent_of_offsets
    (hcolumns : ¬(row.clipStartTimeMs.isSome ∧ row.clipEndTimeMs.isSome))
    (hmetadata : (row.eventMetadata.get "clip_start_time_ms").asStrictInt.isNone ∨
      (row.eventMetadata.get "clip_end_time_ms").asStrictInt.isNone) :
    windowFromEvent row video =
      let pre := (row.eventMetadata.get "clip_pre_ms").asStrictInt.getD defaultClipPreMs
      let post := (row.eventMetadata.get "clip_post_ms").asStrictInt.getD defaultClipPostMs
      let start := clampClipTime (row.eventTimeMs - pre) (durationMs video)
      let stop := clampClipTime (row.eventTimeMs + post) (durationMs video)
      (start, if stop ≤ start then clampClipTime (start + 1000) (durationMs video) else stop) := by
  unfold windowFromEvent
  split
  · next hs he => exact (hcolumns (by rw [hs, he]; exact ⟨rfl, rfl⟩)).elim
  · split
    · next hs he =>
      rw [hs, he] at hmetadata
      exact (hmetadata.elim Bool.false_ne_true Bool.false_ne_true).elim
    · rfl

/-- A window that lies within the video and around its event. -/
structure IsWindow (duration : Option ℤ) (eventTimeMs start stop : ℤ) : Prop where
  nonneg : 0 ≤ start
  start_le : start ≤ eventTimeMs
  le_stop : eventTimeMs ≤ stop
  start_lt : start < stop
  within : ∀ d ∈ duration, stop ≤ d

inductive VideoEventSourceValue
  | manual | alphaModel
  deriving DecidableEq, Repr

/-- `_derive_event_source` -/
def deriveEventSource (row : VideoEvent) : VideoEventSourceValue :=
  if row.hasSource manualEventSource then .manual else .alphaModel

structure VideoEventSummary where
  id : EventId
  eventType : VideoEventType
  eventTimeMs : ℤ
  clipStartTimeMs : ℤ
  clipEndTimeMs : ℤ
  outputFrame : ℤ
  shotClockEnabled : Bool
  confidence : Option ℚ
  reviewStatus : ReviewStatus
  source : VideoEventSourceValue
  createdAt : Time

/-- `_video_event_summary` -/
def videoEventSummary (row : VideoEvent) (video : VideoOf δ) : VideoEventSummary :=
  let (clipStartTimeMs, clipEndTimeMs) := windowFromEvent row video
  { id := row.id
    eventType := row.eventType
    eventTimeMs := row.eventTimeMs
    clipStartTimeMs := clipStartTimeMs
    clipEndTimeMs := clipEndTimeMs
    outputFrame := row.outputFrame
    shotClockEnabled := row.shotClockEnabled
    confidence := row.confidence
    reviewStatus := row.reviewStatus
    source := deriveEventSource row
    createdAt := row.createdAt }

/-- `_seconds`: rounded to three decimals. -/
def seconds (valueMs : ℤ) : ℚ := round (valueMs / 1000 * 1000) / 1000

/-- `_export_label` -/
def exportLabel : VideoEventType → String
  | .shotAttempt => "Shot attempt"
  | .shotMade => "Made shot"
  | .rebound => "Rebound"
  | .pass => "Pass"

/-- An event in the CSV export and in the manifests. -/
structure ExportRow where
  videoId : VideoId
  eventId : EventId
  label : String
  eventType : VideoEventType
  reviewStatus : ReviewStatus
  source : VideoEventSourceValue
  clipStartSeconds : ℚ
  clipEndSeconds : ℚ
  eventSeconds : ℚ
  clipStartTimeMs : ℤ
  clipEndTimeMs : ℤ
  eventTimeMs : ℤ
  createdAt : Time

/-- `_safe_event_export_row` -/
def safeEventExportRow (row : VideoEvent) (video : VideoOf δ) : ExportRow :=
  let summary := videoEventSummary row video
  { videoId := video.id
    eventId := summary.id
    label := exportLabel summary.eventType
    eventType := summary.eventType
    reviewStatus := summary.reviewStatus
    source := summary.source
    clipStartSeconds := seconds summary.clipStartTimeMs
    clipEndSeconds := seconds summary.clipEndTimeMs
    eventSeconds := seconds summary.eventTimeMs
    clipStartTimeMs := summary.clipStartTimeMs
    clipEndTimeMs := summary.clipEndTimeMs
    eventTimeMs := summary.eventTimeMs
    createdAt := summary.createdAt }

/-- An `instance` in the XML for SportsCode. -/
structure SportscodeInstance where
  id : ℕ
  start : ℚ
  stop : ℚ
  code : String
  reviewStatus : ReviewStatus
  source : VideoEventSourceValue

/-- The element that `_render_sportscode_xml` makes of a row. -/
def sportscodeInstance (index : ℕ) (row : ExportRow) : SportscodeInstance where
  id := index
  start := row.clipStartSeconds
  stop := row.clipEndSeconds
  code := row.label
  reviewStatus := row.reviewStatus
  source := row.source

theorem round_intCast (n : ℤ) : round n = n := roundEven_intCast n

theorem seconds_eq (valueMs : ℤ) : seconds valueMs = valueMs / 1000 := by
  rw [seconds, div_mul_cancel₀ _ (by norm_num), round_intCast]

/-- The listing and every export show the window. -/
structure ShowsWindow (row : VideoEvent) (video : VideoOf δ) (start stop : ℤ) : Prop where
  listing : (videoEventSummary row video).clipStartTimeMs = start ∧
    (videoEventSummary row video).clipEndTimeMs = stop
  /-- The columns in milliseconds of the CSV and the JSON export. -/
  milliseconds : (safeEventExportRow row video).clipStartTimeMs = start ∧
    (safeEventExportRow row video).clipEndTimeMs = stop
  /-- The columns in seconds of these. -/
  seconds : (safeEventExportRow row video).clipStartSeconds = start / 1000 ∧
    (safeEventExportRow row video).clipEndSeconds = stop / 1000
  sportscode : ∀ index,
    (sportscodeInstance index (safeEventExportRow row video)).start = start / 1000
    ∧ (sportscodeInstance index (safeEventExportRow row video)).stop = stop / 1000

theorem showsWindow_iff {start stop : ℤ} :
    ShowsWindow row video start stop ↔ windowFromEvent row video = (start, stop) := by
  refine ⟨fun h => Prod.ext h.listing.1 h.listing.2, fun h => ?_⟩
  have hs : (windowFromEvent row video).1 = start := congrArg Prod.fst h
  have he : (windowFromEvent row video).2 = stop := congrArg Prod.snd h
  have hseconds : seconds (windowFromEvent row video).1 = start / 1000 ∧
      seconds (windowFromEvent row video).2 = stop / 1000 := by
    rw [seconds_eq, seconds_eq, hs, he]
    exact ⟨rfl, rfl⟩
  exact ⟨⟨hs, he⟩, ⟨hs, he⟩, hseconds, fun _ => hseconds⟩

end NextBallUp.Events
