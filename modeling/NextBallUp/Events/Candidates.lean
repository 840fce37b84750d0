import Mathlib.Data.Option.Basic
import NextBallUp.Events.Import
import NextBallUp.Events.Windows
import NextBallUp.Lib.Exceptions

/-!
# Windows of imported candidates

The import checks that a candidate ends after it starts, and clips both ends at the start of the
video. It does not look at the duration of the video. The table refuses windows that are empty or
begin before the video, and with them the whole report.

## Main definitions

* `IsImported`: a candidate of the report passes the checks of the import
* `HasValidWindow`: the window of an event lies within its video, and so does the window that the
  listing and the exports show

## Main results

* `replaceAlphaCandidateEvents_ok`: what an import that returns has inserted
* `hasValidWindow_iff`: **the events of a report have valid windows if and only if no candidate ends
  after the video**
* `exists_not_hasValidWindow`: a candidate after the end of the video
-/

namespace NextBallUp.Events

open Transaction (Session)

variable {U : Unicode} {video : Video} {row : VideoEvent}

/-! ### The candidates of a report -/

/-- The candidate passes the checks of the import, with this window. -/
structure IsImported (U : Unicode) (raw : Json CodePoint) (start stop : ℤ) : Prop where
  reviewRequired : (raw.get "review_required").isTrue
  commercialUse : (raw.get "commercial_use_allowed").isFalse
  eventType : ∃ t, VideoEventType.ofText (codes (U.str (raw.get "event_type"))) = some t ∧
    t ∈ alphaCandidateEventTypes
  start_eq : (raw.get "start_time_ms").asInt = some start
  stop_eq : (raw.get "end_time_ms").asInt = some stop
  start_lt : start < stop
  candidateId : ∃ id, (raw.get "candidate_id").asStr = some id ∧ id ≠ []

theorem candidateItem_eq_some {raw : Json CodePoint} {item : CandidateItem}
    (h : candidateItem U raw = some item) :
    ∃ start stop, IsImported U raw start stop ∧ item.startTimeMs = max 0 start ∧
      item.endTimeMs = max 0 stop := by
  cases raw with
  | obj fields =>
    simp only [candidateItem, Json.asObj, Option.bind_eq_bind, Option.bind_eq_some_iff,
      Option.some.injEq, exists_eq_left', Option.guard_eq_some', exists_const] at h
    obtain ⟨hreview, huse, t, ht, hmem, start, hstart, stop, hstop, hlt, id, hid, hne, rfl⟩ := h
    exact ⟨start, stop, ⟨hreview, huse, ⟨t, ht, hmem⟩, hstart, hstop, hlt, id, hid, hne⟩, rfl, rfl⟩
  | _ => cases h

theorem exists_candidateItem {raw : Json CodePoint} {start stop : ℤ}
    (h : IsImported U raw start stop) :
    ∃ item, candidateItem U raw = some item ∧ item.startTimeMs = max 0 start ∧
      item.endTimeMs = max 0 stop := by
  obtain ⟨hreview, huse, ⟨t, ht, hmem⟩, hstart, hstop, hlt, id, hid, hne⟩ := h
  cases raw with
  | obj fields =>
    simp only [Json.get] at hreview huse ht hstart hstop hid
    simp [candidateItem, Json.asObj, hreview, huse, ht, hmem, hstart, hstop, hlt, hid, hne]
  | _ => cases hreview

/-- The candidates of a report that is accepted are those of its list that pass the checks. -/
theorem validatedCandidateItems_ok {report : Json.Fields CodePoint} {items : List CandidateItem}
    (h : validatedCandidateItems U report = .ok items) :
    ∃ raws, (report.get "candidates").asArr = some raws ∧
      items = (raws.take 100).filterMap (candidateItem U) := by
  unfold validatedCandidateItems at h
  obtain ⟨-, -, h⟩ := Except.exists_of_bind_eq_ok h
  obtain ⟨-, -, h⟩ := Except.exists_of_bind_eq_ok h
  split at h
  · obtain ⟨-, -, h⟩ := Except.exists_of_bind_eq_ok h
    obtain ⟨-, -, h⟩ := Except.exists_of_bind_eq_ok h
    obtain ⟨-, -, h⟩ := Except.exists_of_bind_eq_ok h
    obtain ⟨-, -, h⟩ := Except.exists_of_bind_eq_ok h
    obtain ⟨-, -, h⟩ := Except.exists_of_bind_eq_ok h
    obtain ⟨-, -, h⟩ := Except.exists_of_bind_eq_ok h
    split at h
    · next raws hraws =>
      cases h
      exact ⟨raws, hraws, rfl⟩
    · cases h
  · cases h

/-! ### The events -/

/-- The window of the event lies within the video, and so does the one that the listing and the
exports show. -/
structure HasValidWindow (video : Video) (row : VideoEvent) : Prop where
  stored : ∃ start stop, row.clipStartTimeMs = some start ∧ row.clipEndTimeMs = some stop ∧
    IsWindow (durationMs video) row.eventTimeMs start stop
  shown : ∃ start stop, ShowsWindow row video start stop ∧ start < stop ∧
    ∀ d ∈ durationMs video, stop ≤ d

/-- The import puts the event into the middle of its window. -/
theorem isWindow_middle {duration : Option ℤ} {start stop : ℤ} (hs : 0 ≤ start)
    (hlt : start < stop) (hd : ∀ d ∈ duration, stop ≤ d) :
    IsWindow duration ((start + stop) / 2) start stop := by
  refine ⟨hs, ?_, ?_, hlt, hd⟩ <;> omega

/-- The listing shows a window that is stored and valid as it is. -/
theorem HasValidWindow.of_stored {start stop : ℤ} (hs : row.clipStartTimeMs = some start)
    (he : row.clipEndTimeMs = some stop)
    (hw : IsWindow (durationMs video) row.eventTimeMs start stop) : HasValidWindow video row := by
  refine ⟨⟨start, stop, hs, he, hw⟩, start, stop, ?_, hw.start_lt, hw.within⟩
  rw [showsWindow_iff, windowFromEvent_of_columns hs he]
  have hlt := hw.start_lt
  rw [clampClipTime_eq hw.nonneg fun d hd => hlt.le.trans (hw.within d hd),
    clampClipTime_eq (hw.nonneg.trans hlt.le) hw.within]

/-- The events that an import has inserted are those of the candidates, and the table took them. -/
structure IsInserted (video : Video) (items : List CandidateItem) (now : Time) (db db' : Db) :
    Prop where
  mem : ∀ item ∈ items, ∃ id, db.nextId ≤ id ∧
    { candidateEvent video (db.shotClockEnabled video.id) now item with id := id } ∈ db'.events
  of_mem : ∀ row ∈ db'.events, db.nextId ≤ row.id → row.fits ∧ ∃ item ∈ items, ∃ id,
    row = { candidateEvent video (db.shotClockEnabled video.id) now item with id := id }

theorem replaceAlphaCandidateEvents_ok {report : Json.Fields CodePoint} {now : Time} {n : ℕ}
    {s s' : Session Db Unit}
    (h : replaceAlphaCandidateEvents U video now report s = (.ok n, s')) :
    ∃ items, validatedCandidateItems U report = .ok items ∧
      IsInserted video items now s.working s'.working := by
  rw [replaceAlphaCandidateEvents_apply] at h
  split at h
  · cases h
  · next items hitems =>
    refine ⟨items, hitems, ?_⟩
    split at h
    · next db hdb =>
      cases h
      rw [Db.insert] at hdb
      split_ifs at hdb with hfits
      cases hdb
      constructor
      · intro item hitem
        obtain ⟨i, hi⟩ := Db.exists_mem_numbered (List.mem_map_of_mem hitem)
        exact ⟨_, Nat.le_add_right _ i, List.mem_append_right _ hi⟩
      · intro row hrow hnew
        rcases List.mem_append.mp hrow with hold | hrow
        · have hlt := s.working.id_lt row (mem_withoutCandidates.mp hold).1
          exact (Nat.not_le.mpr hlt hnew).elim
        · obtain ⟨r, hr, i, rfl⟩ := Db.exists_of_mem_numbered hrow
          obtain ⟨item, hitem, rfl⟩ := List.mem_map.mp hr
          exact ⟨List.all_eq_true.mp hfits _ hrow, item, hitem, _, rfl⟩
    · cases h

/-- The table keeps the event of a candidate only if its window is not empty. -/
theorem lt_of_fits {shot : Bool} {now : Time} {item : CandidateItem} {id : EventId}
    (h : VideoEvent.fits { candidateEvent video shot now item with id := id }) :
    item.startTimeMs < item.endTimeMs := by
  unfold VideoEvent.fits at h
  simp only [Bool.and_eq_true] at h
  exact of_decide_eq_true h.1.1.1.1.1.2

/-- A candidate whose event has a valid window ends before the video does. -/
theorem stop_le_of_hasValidWindow {report : Json.Fields CodePoint} {now : Time} {n : ℕ}
    {s s' : Session Db Unit} {raws : List (Json CodePoint)} {raw : Json CodePoint}
    {start stop d : ℤ}
    (h : replaceAlphaCandidateEvents U video now report s = (.ok n, s'))
    (hvalid : ∀ row ∈ s'.working.events, s.working.nextId ≤ row.id → HasValidWindow video row)
    (hraws : (report.get "candidates").asArr = some raws) (hraw : raw ∈ raws.take 100)
    (himported : IsImported U raw start stop) (hd : durationMs video = some d) : stop ≤ d := by
  obtain ⟨items, hitems, hinserted⟩ := replaceAlphaCandidateEvents_ok h
  obtain ⟨raws', hraws', rfl⟩ := validatedCandidateItems_ok hitems
  obtain rfl : raws' = raws := Option.some.inj (hraws'.symm.trans hraws)
  obtain ⟨item, hitem, -, hstop⟩ := exists_candidateItem himported
  obtain ⟨id, hnew, hrow⟩ := hinserted.mem item (List.mem_filterMap.mpr ⟨raw, hraw, hitem⟩)
  obtain ⟨_, _, -, hend, hw⟩ := (hvalid _ hrow hnew).stored
  obtain rfl : item.endTimeMs = _ := Option.some.inj hend
  exact ((le_max_right 0 stop).trans_eq hstop.symm).trans (hw.within d hd)

/-- An event that the table has kept is valid if its candidate ends before the video does. -/
theorem hasValidWindow_of_stop_le {report : Json.Fields CodePoint} {now : Time} {n : ℕ}
    {s s' : Session Db Unit}
    (h : replaceAlphaCandidateEvents U video now report s = (.ok n, s'))
    (hends : ∀ raws, (report.get "candidates").asArr = some raws → ∀ raw ∈ raws.take 100,
      ∀ start stop, IsImported U raw start stop → ∀ d ∈ durationMs video, stop ≤ d)
    (hrow : row ∈ s'.working.events) (hnew : s.working.nextId ≤ row.id) :
    HasValidWindow video row := by
  obtain ⟨items, hitems, hinserted⟩ := replaceAlphaCandidateEvents_ok h
  obtain ⟨raws, hraws, rfl⟩ := validatedCandidateItems_ok hitems
  obtain ⟨hfits, item, hitem, id, rfl⟩ := hinserted.of_mem row hrow hnew
  obtain ⟨raw, hraw, hitem⟩ := List.mem_filterMap.mp hitem
  obtain ⟨start, stop, himported, hstart, hstop⟩ := candidateItem_eq_some hitem
  have hlt := lt_of_fits hfits
  refine .of_stored rfl rfl (isWindow_middle (hstart ▸ le_max_left 0 start) hlt fun d hd => ?_)
  have hle := hends raws hraws raw hraw start stop himported d hd
  -- The window is not empty, so its end has not been clipped.
  omega

/-- **The events of a report have valid windows if and only if no candidate ends after the
video.** -/
theorem hasValidWindow_iff {report : Json.Fields CodePoint} {now : Time} {n : ℕ}
    {s s' : Session Db Unit}
    (h : replaceAlphaCandidateEvents U video now report s = (.ok n, s')) :
    (∀ row ∈ s'.working.events, s.working.nextId ≤ row.id → HasValidWindow video row) ↔
      ∀ raws, (report.get "candidates").asArr = some raws → ∀ raw ∈ raws.take 100,
        ∀ start stop, IsImported U raw start stop → ∀ d ∈ durationMs video, stop ≤ d :=
  ⟨fun hvalid _ hraws _ hraw _ _ himported _ hd =>
      stop_le_of_hasValidWindow h hvalid hraws hraw himported hd,
    fun hends _ hrow hnew => hasValidWindow_of_stop_le h hends hrow hnew⟩

/-! ### Two reports -/

/-- The members of an object, spelled without escapes. -/
def members (fields : List (String × Json CodePoint)) : Json.Fields CodePoint :=
  fields.map fun f => (f.1.codePoints.map (⟨·, true⟩), f.2)

/-- A text, spelled without escapes. -/
def spelled (s : String) : Json CodePoint := .str (s.codePoints.map (⟨·, true⟩))

def sampleCandidate (startTimeMs endTimeMs : ℤ) : Json CodePoint :=
  .obj (members
    [("candidate_id", spelled "alpha-video-candidate-000001"),
      ("event_type", spelled "shot_attempt"),
      ("start_time_ms", .int startTimeMs),
      ("end_time_ms", .int endTimeMs),
      ("predicted_actions", .arr [spelled "3PT Shot"]),
      ("review_required", .bool true),
      ("commercial_use_allowed", .bool false)])

/-- A report with one candidate. -/
def sampleReport (startTimeMs endTimeMs : ℤ) : Json.Fields CodePoint :=
  members
    [("schema_version", spelled "alpha_video_candidate_tags_v1"),
      ("source", spelled alphaCandidateSource),
      ("lineage", .obj (members
        [("demo_only", .bool true),
          ("review_required", .bool true),
          ("commercial_use_allowed", .bool false),
          ("restricted_source", .bool true)])),
      ("review_required", .bool true),
      ("demo_only", .bool true),
      ("commercial_use_allowed", .bool false),
      ("not_production_analytics", .bool true),
      ("candidates", .arr [sampleCandidate startTimeMs endTimeMs]),
      ("blocker", .null)]

/-- The import of the report for a video of half a minute. -/
def sampleImport (startTimeMs endTimeMs : ℤ) : Except ImportError ℕ × Session Db Unit :=
  replaceAlphaCandidateEvents .ascii (sampleVideo 30) 0 (sampleReport startTimeMs endTimeMs)
    ⟨.empty, .empty, ()⟩

theorem exists_sampleImport {startTimeMs endTimeMs : ℤ}
    (h : (sampleImport startTimeMs endTimeMs).1.toOption = some 1) :
    ∃ s', sampleImport startTimeMs endTimeMs = (.ok 1, s') := by
  cases hr : sampleImport startTimeMs endTimeMs with
  | mk r s' =>
    rw [hr] at h
    cases r with
    | ok n => exact ⟨s', by rw [Option.some.inj h]⟩
    | error e => cases h

/-- A candidate of eight seconds, four seconds into the video. -/
theorem exists_hasValidWindow :
    ∃ s', sampleImport 4000 12000 = (.ok 1, s') ∧
      ∀ row ∈ s'.working.events, HasValidWindow (sampleVideo 30) row := by
  obtain ⟨s', hs⟩ := exists_sampleImport (by decide +kernel : (sampleImport 4000 12000).1.toOption =
    some 1)
  refine ⟨s', hs, fun row hrow => (hasValidWindow_iff hs).mpr ?_ row hrow (Nat.zero_le _)⟩
  intro raws hraws raw hraw start stop himported d hd
  cases hraws
  obtain rfl := List.mem_singleton.mp hraw
  have hstop := himported.stop_eq
  obtain rfl : 12000 = stop := Option.some.inj hstop
  obtain rfl : (30000 : ℤ) = d := Option.some.inj ((by decide +kernel :
    some 30000 = durationMs (sampleVideo 30)).trans hd)
  decide

theorem isImported_sampleCandidate : IsImported .ascii (sampleCandidate 4000 40000) 4000 40000 where
  reviewRequired := by decide +kernel
  commercialUse := by decide +kernel
  eventType := ⟨.shotAttempt, by decide +kernel, by decide⟩
  start_eq := by decide +kernel
  stop_eq := by decide +kernel
  start_lt := by decide
  candidateId := ⟨"alpha-video-candidate-000001".codePoints.map (⟨·, true⟩), by decide +kernel,
    by decide +kernel⟩

/-- A candidate that ends ten seconds after the video. -/
theorem exists_not_hasValidWindow :
    ∃ s', sampleImport 4000 40000 = (.ok 1, s') ∧
      ¬∀ row ∈ s'.working.events, HasValidWindow (sampleVideo 30) row := by
  obtain ⟨s', hs⟩ := exists_sampleImport (by decide +kernel : (sampleImport 4000 40000).1.toOption =
    some 1)
  refine ⟨s', hs, fun hvalid => ?_⟩
  have hle := stop_le_of_hasValidWindow hs (fun row hrow _ => hvalid row hrow) rfl
    (List.mem_singleton_self _) isImported_sampleCandidate
    (by decide +kernel : durationMs (sampleVideo 30) = some 30000)
  exact absurd hle (by decide)

end NextBallUp.Events
