import NextBallUp.Events.Windows
import Mathlib.Data.List.Nodup

/-!
# Windows of the clip proposals

The package `nextballup_clips` turns the events that wait for a review into proposals for clips. It
knows an event by its offsets, which are bounded, and derives the window from them anew.

## Main definitions

* `ClipEvent`, `ClipProposal`: what the package is given, and what it returns
* `buildClipProposals`, `listVideoClipProposals`: the proposals, and the route that lists them
* `KeepsBounds`, `CarriesOffsets`: the rows on which both derivations agree

## Main results

* `proposal_of_mem`: every listed proposal is the one of a row that waits for a review
* `proposal_showsWindow`: **the proposal of a row whose window keeps the bounds shows the window
  that the listing and the exports show**
* `not_all_showsWindow`: a made shot without a stored window

## What is deliberately absent

The label and the reason of a proposal, which are only shown.
-/

namespace NextBallUp.Events

variable {δ : Type} [Arithmetic δ] {row : VideoEvent} {video : VideoOf δ}

/-- `MIN_WINDOW_MS` -/
def minWindowMs : ℤ := 1000

/-- `MAX_MODEL_WINDOW_MS` -/
def maxModelWindowMs : ℤ := 15000

structure ClipEvent where
  id : EventId
  eventType : String
  eventTimeMs : ℤ
  confidence : Option ℚ
  reviewStatus : String
  createdAt : Option Time
  metadata : Metadata

structure ClipProposal where
  sourceEventId : EventId
  eventType : String
  startTimeMs : ℤ
  endTimeMs : ℤ
  rankScore : ℚ
  confidence : Option ℚ
  reviewStatus : String
  createdAt : Option Time

/-- `_WINDOWS_MS.get(event_type, _DEFAULT_WINDOW_MS)` -/
def windowsMs : String → ℤ × ℤ
  | "shot_attempt" => (4000, 6000)
  | "shot_made" => (4000, 7000)
  | "rebound" => (3000, 5000)
  | "pass" => (2000, 4000)
  | _ => (3000, 5000)

/-- `_EVENT_WEIGHTS.get(event_type, 0.35)` -/
def eventWeights : String → ℚ
  | "shot_made" => 98 / 100
  | "shot_attempt" => 92 / 100
  | "rebound" => 72 / 100
  | "pass" => 42 / 100
  | _ => 35 / 100

/-- `_REVIEW_BONUS.get(review_status, 0.0)` -/
def reviewBonus : String → ℚ
  | "needs_review" => 4 / 100
  | "machine_only" => 2 / 100
  | _ => 0

/-- `_REVIEW_QUEUE_STATUSES` -/
def reviewQueueStatuses : List String := ["needs_review", "machine_only"]

namespace ClipEvent

/-- `_duration_ms` of the package. -/
def durationMs (durationSeconds : Option δ) : Option ℤ :=
  match durationSeconds with
  | some d => if Arithmetic.seconds d ≤ 0 then none else some (Arithmetic.millis d)
  | none => none

/-- `_clip_center_ms` -/
def clipCenterMs (eventTimeMs : ℤ) (durationMs : Option ℤ) : ℤ :=
  let centerMs := max 0 eventTimeMs
  match durationMs with
  | some duration => min centerMs duration
  | none => centerMs

/-- `_window_override` -/
def windowOverride (value : Json ℕ) (default : ℤ) : ℤ :=
  match value.asStrictInt with
  | some ms => max minWindowMs (min maxModelWindowMs ms)
  | none => default

/-- `_window_for_event` -/
def windowForEvent (event : ClipEvent) : ℤ × ℤ :=
  let (preMs, postMs) := windowsMs event.eventType
  (windowOverride (event.metadata.get "clip_pre_ms") preMs,
    windowOverride (event.metadata.get "clip_post_ms") postMs)

/-- `_rank_score`, rounded to four decimals. -/
def rankScore (δ : Type) [Arithmetic δ] (event : ClipEvent) : ℚ :=
  let nearest := Arithmetic.nearest δ
  let confidence := max 0 (min 1 (event.confidence.getD 0))
  let score := min 1 (nearest (nearest
    (nearest (nearest (eventWeights event.eventType) * nearest (4 / 10)) +
      nearest (confidence * nearest (56 / 100))) + nearest (reviewBonus event.reviewStatus)))
  nearest (round (score * 10000) / 10000)

/-- The window that `build_clip_proposals` gives an event, unless it is empty. -/
def window (event : ClipEvent) (durationMs : Option ℤ) : Option (ℤ × ℤ) :=
  let centerMs := clipCenterMs event.eventTimeMs durationMs
  let (preMs, postMs) := event.windowForEvent
  let startMs := max 0 (centerMs - preMs)
  let endMs := centerMs + postMs
  let (startMs, endMs) := match durationMs with
    | some duration =>
      let endMs := min duration endMs
      if endMs ≤ startMs then (max 0 (duration - minWindowMs), duration) else (startMs, endMs)
    | none => (startMs, endMs)
  if endMs ≤ startMs then none else some (startMs, endMs)

/-- One turn of the loop of `build_clip_proposals`. -/
def proposal (δ : Type) [Arithmetic δ] (event : ClipEvent) (durationMs : Option ℤ)
    (includeRejected : Bool) : Option ClipProposal :=
  if event.reviewStatus ∉ reviewQueueStatuses ∧
      ¬(includeRejected ∧ event.reviewStatus = "rejected") then
    none
  else
    (event.window durationMs).map fun (startMs, endMs) =>
      { sourceEventId := event.id
        eventType := event.eventType
        startTimeMs := startMs
        endTimeMs := endMs
        rankScore := event.rankScore δ
        confidence := event.confidence
        reviewStatus := event.reviewStatus
        createdAt := event.createdAt }

end ClipEvent

/-- The order of the proposals: by rank, then by start, then by event. -/
def ClipProposal.le (p q : ClipProposal) : Bool :=
  q.rankScore < p.rankScore || (p.rankScore = q.rankScore &&
    (p.startTimeMs < q.startTimeMs || (p.startTimeMs = q.startTimeMs &&
      p.sourceEventId ≤ q.sourceEventId)))

/-- `build_clip_proposals` -/
def buildClipProposals (events : List ClipEvent) (durationSeconds : Option δ) (limit : ℕ)
    (includeRejected : Bool) : List ClipProposal :=
  let durationMs := ClipEvent.durationMs durationSeconds
  let proposals := events.filterMap fun event => event.proposal δ durationMs includeRejected
  (proposals.mergeSort ClipProposal.le).take limit

/-- `_clip_event_from_row` -/
def clipEventFromRow (row : VideoEvent) (video : VideoOf δ) : ClipEvent where
  id := row.id
  eventType := row.eventType.value
  eventTimeMs := row.eventTimeMs
  confidence := row.confidence
  reviewStatus := row.reviewStatus.value
  createdAt := some row.createdAt
  metadata :=
    if row.clipStartTimeMs.isSome ∧ row.clipEndTimeMs.isSome then
      let (clipStartTimeMs, clipEndTimeMs) := windowFromEvent row video
      (row.eventMetadata.set "clip_pre_ms".codePoints
        (.int (row.eventTimeMs - clipStartTimeMs))).set
        "clip_post_ms".codePoints (.int (clipEndTimeMs - row.eventTimeMs))
    else row.eventMetadata

/-- The rows that `list_video_clip_proposals` selects, of all rows of the table. -/
def clipProposalRows (rows : List VideoEvent) (video : VideoOf δ) (limit : ℕ) : List VideoEvent :=
  let waiting := rows.filter fun row => row.videoId = video.id &&
    (row.reviewStatus = .needsReview || row.reviewStatus = .machineOnly)
  let ordered := waiting.mergeSort fun r s => r.eventTimeMs < s.eventTimeMs ||
    (r.eventTimeMs = s.eventTimeMs && r.outputFrame ≤ s.outputFrame)
  ordered.take (min (limit * 4) 400)

/-- `list_video_clip_proposals` -/
def listVideoClipProposals (rows : List VideoEvent) (video : VideoOf δ) (limit : ℕ) :
    List ClipProposal :=
  let events := (clipProposalRows rows video limit).map fun row => clipEventFromRow row video
  (buildClipProposals events video.durationSeconds limit false).filter (·.createdAt.isSome)

/-- Every listed proposal is the one of a row of the video that waits for a review. -/
theorem proposal_of_mem {rows : List VideoEvent} {limit : ℕ} {p : ClipProposal}
    (h : p ∈ listVideoClipProposals rows video limit) :
    ∃ row ∈ rows, row.videoId = video.id ∧
      (row.reviewStatus = .needsReview ∨ row.reviewStatus = .machineOnly) ∧
      p.sourceEventId = row.id ∧
      (clipEventFromRow row video).window (ClipEvent.durationMs video.durationSeconds) =
        some (p.startTimeMs, p.endTimeMs) := by
  obtain ⟨hp, _⟩ := List.mem_filter.mp h
  obtain ⟨event, hevent, hproposal⟩ :=
    List.mem_filterMap.mp (List.mem_mergeSort.mp (List.mem_of_mem_take hp))
  obtain ⟨row, hrow, rfl⟩ := List.mem_map.mp hevent
  obtain ⟨hmem, hwaits⟩ := List.mem_filter.mp (List.mem_mergeSort.mp (List.mem_of_mem_take hrow))
  rw [ClipEvent.proposal] at hproposal
  split at hproposal
  · cases hproposal
  · obtain ⟨w, hw, rfl⟩ := Option.map_eq_some_iff.mp hproposal
    simp only [Bool.and_eq_true, Bool.or_eq_true, decide_eq_true_eq] at hwaits
    exact ⟨row, hmem, hwaits.1, hwaits.2, rfl, hw⟩

/-! ### Rows on which both derivations agree -/

/-- The offsets of a window from its event are within the bounds that the package keeps, except
where the window ends with the video. -/
structure KeepsBounds (duration : Option ℤ) (eventTimeMs start stop : ℤ) : Prop where
  nonneg : 0 ≤ eventTimeMs
  within : ∀ d ∈ duration, eventTimeMs ≤ d
  pre : start = 0 ∨ minWindowMs ≤ eventTimeMs - start
  pre_le : eventTimeMs - start ≤ maxModelWindowMs
  post : stop ∈ duration ∨ minWindowMs ≤ stop - eventTimeMs
  post_le : stop - eventTimeMs ≤ maxModelWindowMs

/-- The row carries an offset: its metadata has it, or both derivations supply the same. -/
def CarriesOffset (row : VideoEvent) (key : String) (clipsDefault apiDefault : ℤ) : Prop :=
  (row.eventMetadata.get key).asStrictInt.isSome ∨ clipsDefault = apiDefault

/-- The row carries its window in its columns or by its offsets. -/
def CarriesOffsets (row : VideoEvent) : Prop :=
  (row.clipStartTimeMs.isSome ∧ row.clipEndTimeMs.isSome) ∨
    (((row.eventMetadata.get "clip_start_time_ms").asStrictInt.isNone ∨
        (row.eventMetadata.get "clip_end_time_ms").asStrictInt.isNone) ∧
      CarriesOffset row "clip_pre_ms" (windowsMs row.eventType.value).1 defaultClipPreMs ∧
      CarriesOffset row "clip_post_ms" (windowsMs row.eventType.value).2 defaultClipPostMs)

/-- An offset, as the package bounds it. -/
def bounded (offset : ℤ) : ℤ := max minWindowMs (min maxModelWindowMs offset)

/-- Where the window ends, if it would end at `value`. -/
def cutAt (value : ℤ) (duration : Option ℤ) : ℤ :=
  match duration with
  | some d => min d value
  | none => value

theorem minWindowMs_le_windowOverride (value : Json ℕ) {default : ℤ} (h : minWindowMs ≤ default) :
    minWindowMs ≤ ClipEvent.windowOverride value default := by
  unfold ClipEvent.windowOverride
  split
  · exact le_max_left _ _
  · exact h

theorem minWindowMs_le_windowsMs (eventType : String) :
    minWindowMs ≤ (windowsMs eventType).1 ∧ minWindowMs ≤ (windowsMs eventType).2 := by
  unfold windowsMs
  split <;> decide

namespace ClipEvent

/-- Both derivations take the duration of a video to be the same. -/
theorem durationMs_eq (h : ∀ d ∈ video.durationSeconds, 0 ≤ Arithmetic.seconds d) :
    durationMs video.durationSeconds = Events.durationMs video := by
  unfold durationMs Events.durationMs
  cases hd : video.durationSeconds with
  | none => rfl
  | some d =>
    show (if Arithmetic.seconds d ≤ 0 then none else _) =
      if Arithmetic.seconds d = 0 then none else _
    rcases (h d hd).eq_or_lt with hzero | hpos
    · rw [if_pos hzero.ge, if_pos hzero.symm]
    · rw [if_neg (not_le.mpr hpos), if_neg hpos.ne']

/-- An event within the video has the window of its offsets. -/
theorem window_eq {event : ClipEvent} {duration : Option ℤ} {w : ℤ × ℤ}
    (h : 0 ≤ event.eventTimeMs) (hd : ∀ d ∈ duration, event.eventTimeMs ≤ d)
    (hw : event.window duration = some w) :
    w = (max 0 (event.eventTimeMs - event.windowForEvent.1),
      cutAt (event.eventTimeMs + event.windowForEvent.2) duration) := by
  have hpre : minWindowMs ≤ event.windowForEvent.1 :=
    minWindowMs_le_windowOverride _ (minWindowMs_le_windowsMs _).1
  have hpost : minWindowMs ≤ event.windowForEvent.2 :=
    minWindowMs_le_windowOverride _ (minWindowMs_le_windowsMs _).2
  unfold window at hw
  revert hw hpre hpost
  generalize event.windowForEvent = offsets
  obtain ⟨pre, post⟩ := offsets
  intro hw hpre hpost
  simp only [minWindowMs] at hpre hpost
  cases duration with
  | none =>
    simp only [clipCenterMs, cutAt, max_eq_right h] at hw ⊢
    split at hw
    · cases hw
    · exact (Option.some.inj hw).symm
  | some d =>
    have ht : event.eventTimeMs ≤ d := hd d rfl
    simp only [clipCenterMs, cutAt, minWindowMs, max_eq_right h, min_eq_left ht] at hw ⊢
    split_ifs at hw with hempty hshifted
    -- The event is the start of an empty video, in which no window fits.
    · omega
    · exact (Option.some.inj hw).symm

end ClipEvent

/-- An offset that a row carries is the one that the API takes, within the bounds. -/
theorem windowOverride_eq {key : String} {clipsDefault apiDefault : ℤ}
    (h : CarriesOffset row key clipsDefault apiDefault) (hmin : minWindowMs ≤ clipsDefault)
    (hmax : clipsDefault ≤ maxModelWindowMs) :
    ClipEvent.windowOverride (row.eventMetadata.get key) clipsDefault =
      bounded ((row.eventMetadata.get key).asStrictInt.getD apiDefault) := by
  unfold ClipEvent.windowOverride
  cases hp : (row.eventMetadata.get key).asStrictInt with
  | some p => rfl
  | none =>
    obtain hs | rfl := h
    · rw [hp] at hs
      cases hs
    · rw [Option.getD_none, bounded, min_eq_right hmax, max_eq_right hmin]

theorem windowsMs_le_maxModelWindowMs (eventType : String) :
    (windowsMs eventType).1 ≤ maxModelWindowMs ∧ (windowsMs eventType).2 ≤ maxModelWindowMs := by
  unfold windowsMs
  split <;> decide

/-- A row with a window in its columns gives the package the offsets of that window. -/
theorem windowForEvent_of_columns (hs : row.clipStartTimeMs.isSome)
    (he : row.clipEndTimeMs.isSome) :
    (clipEventFromRow row video).windowForEvent =
      (bounded (row.eventTimeMs - (windowFromEvent row video).1),
        bounded ((windowFromEvent row video).2 - row.eventTimeMs)) := by
  have hne : "clip_post_ms" ≠ "clip_pre_ms" := by decide
  rw [ClipEvent.windowForEvent, clipEventFromRow, if_pos ⟨hs, he⟩]
  dsimp only
  rw [Json.Fields.get_set_of_ne hne, Json.Fields.get_set_self, Json.Fields.get_set_self]
  rfl

theorem windowForEvent_of_offsets (h : ¬(row.clipStartTimeMs.isSome ∧ row.clipEndTimeMs.isSome)) :
    (clipEventFromRow row video).windowForEvent =
      (ClipEvent.windowOverride (row.eventMetadata.get "clip_pre_ms")
          (windowsMs row.eventType.value).1,
        ClipEvent.windowOverride (row.eventMetadata.get "clip_post_ms")
          (windowsMs row.eventType.value).2) := by
  rw [ClipEvent.windowForEvent, clipEventFromRow, if_neg h]

section Agreement

variable {t offset start stop : ℤ} {duration : Option ℤ}

/-- Cutting the window at the start of the video hides an offset that is out of bounds. -/
theorem clampClipTime_sub_eq (h : KeepsBounds duration t start stop)
    (hs : clampClipTime (t - offset) duration = start) : max 0 (t - bounded offset) = start := by
  obtain ⟨hnonneg, hwithin, hpre, hpre_le, -, -⟩ := h
  subst hs
  simp only [minWindowMs, maxModelWindowMs] at hpre hpre_le
  cases duration with
  | none =>
    simp only [clampClipTime, bounded, minWindowMs, maxModelWindowMs] at hpre hpre_le ⊢
    omega
  | some d =>
    have ht := hwithin d rfl
    simp only [clampClipTime, bounded, minWindowMs, maxModelWindowMs] at hpre hpre_le ⊢
    omega

/-- Likewise at its end. -/
theorem clampClipTime_add_eq (h : KeepsBounds duration t start stop)
    (hs : clampClipTime (t + offset) duration = stop) :
    cutAt (t + bounded offset) duration = stop := by
  obtain ⟨hnonneg, hwithin, -, -, hpost, hpost_le⟩ := h
  subst hs
  cases duration with
  | none =>
    simp only [clampClipTime, cutAt, bounded, minWindowMs, maxModelWindowMs, Option.mem_def,
      reduceCtorEq, false_or] at hpost hpost_le ⊢
    omega
  | some d =>
    have ht := hwithin d rfl
    simp only [clampClipTime, cutAt, bounded, minWindowMs, maxModelWindowMs, Option.mem_def,
      Option.some.injEq] at hpost hpost_le ⊢
    omega

/-- A window that would be empty is a second long, which is the least offset of the package. -/
theorem clampClipTime_empty_eq (h : KeepsBounds duration t start stop)
    (hempty : clampClipTime (t + offset) duration ≤ start)
    (hs : clampClipTime (start + 1000) duration = stop) :
    cutAt (t + bounded offset) duration = stop := by
  obtain ⟨hnonneg, hwithin, hpre, -, hpost, -⟩ := h
  subst hs
  cases duration with
  | none =>
    simp only [clampClipTime, cutAt, bounded, minWindowMs, maxModelWindowMs, Option.mem_def,
      reduceCtorEq, false_or] at hempty hpre hpost ⊢
    omega
  | some d =>
    have ht := hwithin d rfl
    simp only [clampClipTime, cutAt, bounded, minWindowMs, maxModelWindowMs, Option.mem_def,
      Option.some.injEq] at hempty hpre hpost ⊢
    omega

end Agreement

/-- The window of the listing is the one of the offsets that the package is given. -/
theorem windowFromEvent_eq (hc : CarriesOffsets row)
    (hk : KeepsBounds (durationMs video) row.eventTimeMs (windowFromEvent row video).1
      (windowFromEvent row video).2) :
    windowFromEvent row video =
      (max 0 (row.eventTimeMs - (clipEventFromRow row video).windowForEvent.1),
        cutAt (row.eventTimeMs + (clipEventFromRow row video).windowForEvent.2)
          (durationMs video)) := by
  have hd : ∀ d ∈ durationMs video, 0 ≤ d := fun d h => hk.nonneg.trans (hk.within d h)
  by_cases hcolumns : row.clipStartTimeMs.isSome ∧ row.clipEndTimeMs.isSome
  · obtain ⟨start, hs⟩ := Option.isSome_iff_exists.mp hcolumns.1
    obtain ⟨stop, he⟩ := Option.isSome_iff_exists.mp hcolumns.2
    rw [windowForEvent_of_columns hcolumns.1 hcolumns.2]
    rw [windowFromEvent_of_columns hs he] at hk ⊢
    refine Prod.ext (clampClipTime_sub_eq hk ?_).symm (clampClipTime_add_eq hk ?_).symm
    · rw [sub_sub_cancel, clampClipTime_idem hd]
    · rw [add_sub_cancel, clampClipTime_idem hd]
  · obtain hcolumns' | ⟨hmetadata, hpre, hpost⟩ := hc
    · exact (hcolumns hcolumns').elim
    have hmin := minWindowMs_le_windowsMs row.eventType.value
    have hmax := windowsMs_le_maxModelWindowMs row.eventType.value
    rw [windowForEvent_of_offsets hcolumns, windowOverride_eq hpre hmin.1 hmax.1,
      windowOverride_eq hpost hmin.2 hmax.2]
    rw [windowFromEvent_of_offsets hcolumns hmetadata] at hk ⊢
    refine Prod.ext (clampClipTime_sub_eq hk rfl).symm ?_
    by_cases hempty : clampClipTime (row.eventTimeMs +
        (row.eventMetadata.get "clip_post_ms").asStrictInt.getD defaultClipPostMs)
        (durationMs video) ≤
      clampClipTime (row.eventTimeMs -
        (row.eventMetadata.get "clip_pre_ms").asStrictInt.getD defaultClipPreMs) (durationMs video)
    · dsimp only at hk ⊢
      rw [if_pos hempty] at hk ⊢
      exact (clampClipTime_empty_eq hk hempty rfl).symm
    · dsimp only at hk ⊢
      rw [if_neg hempty] at hk ⊢
      exact (clampClipTime_add_eq hk rfl).symm

/-- **One event, one window.** The proposal of a row that carries its window, and whose window keeps
the bounds, shows the window that the listing and the exports show. -/
theorem proposal_showsWindow {rows : List VideoEvent} {limit : ℕ} {p : ClipProposal}
    (hkey : (rows.map VideoEvent.id).Nodup) (hp : p ∈ listVideoClipProposals rows video limit)
    (hrow : row ∈ rows) (hid : p.sourceEventId = row.id)
    (hd : ∀ d ∈ video.durationSeconds, 0 ≤ Arithmetic.seconds d) (hc : CarriesOffsets row)
    (hk : KeepsBounds (durationMs video) row.eventTimeMs (windowFromEvent row video).1
      (windowFromEvent row video).2) :
    ShowsWindow row video p.startTimeMs p.endTimeMs := by
  obtain ⟨r, hr, _, _, hrid, hw⟩ := proposal_of_mem hp
  obtain rfl : r = row := List.inj_on_of_nodup_map hkey hr hrow (hrid.symm.trans hid)
  rw [ClipEvent.durationMs_eq hd] at hw
  rw [showsWindow_iff, windowFromEvent_eq hc hk]
  exact (ClipEvent.window_eq hk.nonneg hk.within hw).symm

/-- A row as the import and the coaches write it, but for its columns. -/
def sampleEvent (eventType : VideoEventType) (eventTimeMs : ℤ) (window : Option (ℤ × ℤ))
    (eventMetadata : Metadata) : VideoEvent where
  id := 0
  videoId := 0
  teamId := 0
  eventType := eventType
  eventTimeMs := eventTimeMs
  clipStartTimeMs := window.map Prod.fst
  clipEndTimeMs := window.map Prod.snd
  outputFrame := eventTimeMs * 30 / 1000
  shotClockEnabled := false
  confidence := none
  reviewStatus := .needsReview
  eventMetadata := eventMetadata
  createdAt := 0

/-- The only row that waits for a review is proposed with the window that the package derives. -/
theorem exists_proposal_singleton (row : VideoEvent) (video : VideoOf δ) (start stop : ℤ)
    (hv : row.videoId = video.id) (hs : row.reviewStatus = .needsReview)
    (hw : (clipEventFromRow row video).window (ClipEvent.durationMs video.durationSeconds) =
      some (start, stop)) :
    ∃ p ∈ listVideoClipProposals [row] video 100,
      p.sourceEventId = row.id ∧ p.startTimeMs = start ∧ p.endTimeMs = stop := by
  have hrows : clipProposalRows [row] video 100 = [row] := by
    simp [clipProposalRows, hv, hs]
  have hstatus : (clipEventFromRow row video).reviewStatus ∈ reviewQueueStatuses := by
    show row.reviewStatus.value ∈ reviewQueueStatuses
    rw [hs]
    decide
  simp [listVideoClipProposals, buildClipProposals, hrows, ClipEvent.proposal, hstatus, hw]
  exact ⟨rfl, rfl⟩

/-- A rebound at the start of a video of half a minute. -/
theorem exists_proposal_showsWindow :
    ∃ p ∈ listVideoClipProposals [sampleEvent .rebound 2500 (some (0, 7500)) []]
      (sampleVideoOf (30 : ℚ)) 100, ShowsWindow (sampleEvent .rebound 2500 (some (0, 7500)) [])
        (sampleVideoOf (30 : ℚ)) p.startTimeMs p.endTimeMs := by
  obtain ⟨p, hmem, hid, _⟩ := exists_proposal_singleton (sampleEvent .rebound 2500
    (some (0, 7500)) []) (sampleVideoOf (30 : ℚ)) 0 7500 rfl rfl (by decide +kernel)
  refine ⟨p, hmem, proposal_showsWindow (by simp) hmem (List.mem_singleton_self _)
    hid ?_ (.inl ⟨rfl, rfl⟩) ⟨?_, ?_, ?_, ?_, ?_, ?_⟩⟩
  all_goals decide +kernel

/-- A made shot without a stored window: the package adds seven seconds, and the API adds six. -/
theorem not_all_showsWindow :
    ¬∀ (rows : List VideoEvent) (video : VideoOf ℚ) (limit : ℕ),
      (rows.map VideoEvent.id).Nodup → ∀ p ∈ listVideoClipProposals rows video limit, ∀ row ∈ rows,
        p.sourceEventId = row.id → ShowsWindow row video p.startTimeMs p.endTimeMs := by
  intro h
  obtain ⟨p, hmem, hid, _, hstop⟩ := exists_proposal_singleton (sampleEvent .shotMade 12000 none
    (dict [("clip_pre_ms", .int 4000)])) (sampleVideoOf (30 : ℚ)) 8000 19000 rfl rfl
    (by decide +kernel)
  have hs := (h _ _ _ (by simp) p hmem _ (List.mem_singleton_self _) hid).listing.2
  rw [hstop] at hs
  exact absurd hs (by decide +kernel)

end NextBallUp.Events
