import NextBallUp.Events.Review
import NextBallUp.Lib.Keyset
import NextBallUp.Pages.EventCursor
import Mathlib.Data.Prod.Lex

/-!
# The listing of the events of a video

The route reads the events of a video page by page, in the order of their times and ids.

## Main definitions

* `EventRow`, `Tables`: what a request finds
* `EventFilter`: the filters of the query
* `listVideoEvents`: the route

## Main results

* `eventPage_eq`: **a request gives a page of the events that match its filters**
* `cursor_iff`: the cursor is a faithful encoding, and a text that a client has written lets the
  query fail exactly if it names a number that the column cannot have

## What is deliberately absent

The columns that an event does not have in the model, and row-level security, which admits a coach
to the events of the team.
-/

namespace NextBallUp.Pages

open Events (VideoEvent ReviewStatus VideoEventType Caller manualEventSource VideoEventSummary
  videoEventSummary)
open Events.VideoEvent (IsBigInteger)

/-- `_VIDEO_EVENTS_MAX_LIMIT` -/
def videoEventsMaxLimit : ℕ := 100

/-- The values of a column of the type `BigInteger`. -/
abbrev BigInteger := {n : ℤ // IsBigInteger n}

/-- A row of `video_events`, with values of the types of its columns. -/
structure EventRow extends VideoEvent where
  id_lt : id < 2 ^ 128
  isBigInteger : IsBigInteger eventTimeMs

/-- The primary key of an event. -/
def EventRow.uuid (row : EventRow) : Uuid := ⟨row.id, row.id_lt⟩

/-- What the response tells about the game of a video. -/
structure GameClock where
  shotClockEnabled : Bool
  shotClockSeconds : Option ℤ

/-- The tables as a request finds them. -/
structure Tables where
  videos : VideoId → Option Events.Video
  /-- The game of a video. -/
  games : VideoId → Option GameClock
  events : List EventRow
  nodup_uuid : (events.map EventRow.uuid).Nodup

inductive EventSource
  | alphaModel | manual | all
  deriving DecidableEq, Repr

/-- The filters of the query. Those that are not given are empty. -/
structure EventFilter where
  reviewStatus : List ReviewStatus
  eventType : List VideoEventType
  source : Option EventSource

/-- The conditions that the filters add to the query. The metadata of an event names its source by a
string, if at all; every other value is compared as not equal. -/
def EventFilter.admits (f : EventFilter) (row : EventRow) : Bool :=
  (f.reviewStatus = [] || f.reviewStatus.contains row.reviewStatus) &&
    (f.eventType = [] || f.eventType.contains row.eventType) &&
    match f.source with
    | some .manual => row.hasSource manualEventSource
    | some .alphaModel => !row.hasSource manualEventSource
    | _ => true

/-- `VideoEventsSummaryCounts` -/
structure VideoEventsSummaryCounts where
  total : ℕ
  needsReview : ℕ
  approved : ℕ
  rejected : ℕ
  machineOnly : ℕ
  alphaModelSource : ℕ
  manualSource : ℕ

/-- `_compute_event_summary_counts` -/
def computeEventSummaryCounts (tables : Tables) (videoId : VideoId) : VideoEventsSummaryCounts :=
  let base := tables.events.filter fun row => row.videoId = videoId
  let manual := base.countP fun row => row.hasSource manualEventSource
  { total := base.length
    needsReview := base.countP fun row => row.reviewStatus = .needsReview
    approved := base.countP fun row => row.reviewStatus = .approved
    rejected := base.countP fun row => row.reviewStatus = .rejected
    machineOnly := base.countP fun row => row.reviewStatus = .machineOnly
    alphaModelSource := base.length - manual
    manualSource := manual }

/-- `VideoEventsResponse`. The rows are those that `events` summarises. -/
structure VideoEventsResponse where
  video : Events.Video
  shotClockEnabled : Bool
  shotClockSeconds : Option ℤ
  rows : List EventRow
  total : ℕ
  nextCursor : Option (List ℕ)
  summary : VideoEventsSummaryCounts

/-- `events` of the response. -/
def VideoEventsResponse.events (response : VideoEventsResponse) : List VideoEventSummary :=
  response.rows.map fun row => videoEventSummary row.toVideoEvent response.video

/-- `ORDER BY event_time_ms ASC, id ASC` -/
def EventRow.precedes (row row' : EventRow) : Prop :=
  row.eventTimeMs < row'.eventTimeMs ∨ row.eventTimeMs = row'.eventTimeMs ∧ row.uuid ≤ row'.uuid

instance (row row' : EventRow) : Decidable (row.precedes row') :=
  inferInstanceAs (Decidable (_ ∨ _))

/-- The condition that a cursor adds to the query. -/
def EventRow.isAfter (row : EventRow) (curTime : ℤ) (curId : Uuid) : Bool :=
  curTime < row.eventTimeMs || (row.eventTimeMs = curTime && curId < row.uuid)

/-- The query of a page; the database refuses a time that is no `BigInteger`. -/
def paginatedEvents (filtered : List EventRow) (cursor : Option (ℤ × Uuid)) (limit : ℕ) :
    Except ListingError (List EventRow) :=
  match cursor with
  | none => .ok ((filtered.insertionSort EventRow.precedes).take limit)
  | some (curTime, curId) =>
    if IsBigInteger curTime then
      .ok (((filtered.filter fun row => row.isAfter curTime curId).insertionSort
        EventRow.precedes).take limit)
    else .error .databaseError

/-- `list_video_events` -/
def listVideoEvents (T : DigitTable) (tables : Tables) (user : Caller) (videoId : VideoId)
    (f : EventFilter) (limit : ℕ) (cursor : Option (List ℕ)) :
    Except ListingError VideoEventsResponse := do
  if ¬(1 ≤ limit ∧ limit ≤ videoEventsMaxLimit) then throw .requestValidation
  if ¬∀ c ∈ cursor, 1 ≤ c.length ∧ c.length ≤ 128 then throw .requestValidation
  let some video := tables.videos videoId | throw (.notFound "Video not found")
  if ¬user.isCoach video.teamId then throw .authorizationDenied
  let game := tables.games videoId
  let summary := computeEventSummaryCounts tables videoId
  let filtered := tables.events.filter fun row => row.videoId = videoId && f.admits row
  let cursor ← cursor.mapM (decodeEventCursor T)
  let rows ← paginatedEvents filtered cursor (limit + 1)
  let hasMore := limit < rows.length
  let rows' := if hasMore then rows.take limit else rows
  pure
    { video := video
      shotClockEnabled := (game.map GameClock.shotClockEnabled).getD false
      shotClockSeconds := game.bind GameClock.shotClockSeconds
      rows := rows'
      total := filtered.length
      nextCursor :=
        if hasMore then rows'.getLast?.map fun last => encodeEventCursor last.eventTimeMs last.uuid
        else none
      summary := summary }

/-! ### Keys -/

/-- What the listing is ordered by. -/
def EventRow.key (row : EventRow) : BigInteger ×ₗ Uuid :=
  toLex (⟨row.eventTimeMs, row.isBigInteger⟩, row.uuid)

/-- The cursor that points to a row with the key. -/
def writeEventKey (key : BigInteger ×ₗ Uuid) : List ℕ :=
  encodeEventCursor (ofLex key).1 (ofLex key).2

/-- The events of a video that match the filters. -/
def matchingEvents (videoId : VideoId) (f : EventFilter) (tables : Tables) : List EventRow :=
  tables.events.filter fun row => row.videoId = videoId && f.admits row

variable {T : DigitTable} {tables : Tables} {user : Caller} {videoId : VideoId} {f : EventFilter}
  {limit : ℕ} {video : Events.Video} {key : BigInteger ×ₗ Uuid}

theorem precedes_iff (row row' : EventRow) : row.precedes row' ↔ row.key ≤ row'.key := by
  rw [EventRow.key, EventRow.key, Prod.Lex.toLex_le_toLex, EventRow.precedes, Subtype.mk_lt_mk,
    Subtype.mk.injEq]

theorem isAfter_iff (row : EventRow) (key : BigInteger ×ₗ Uuid) :
    row.isAfter (ofLex key).1 (ofLex key).2 = true ↔ key < row.key := by
  have hkey : key = toLex ((ofLex key).1, (ofLex key).2) := rfl
  rw [hkey, EventRow.key, Prod.Lex.toLex_lt_toLex, ← Subtype.coe_lt_coe, ← Subtype.coe_inj,
    EventRow.isAfter, Bool.or_eq_true, Bool.and_eq_true, decide_eq_true_iff, decide_eq_true_iff,
    decide_eq_true_iff, eq_comm (a := row.eventTimeMs)]
  rfl

/-- The ids are a key of the table, and so are the times and ids. -/
theorem hasKey_matchingEvents (videoId : VideoId) (f : EventFilter) (tables : Tables) :
    Keyset.HasKey EventRow.key (matchingEvents videoId f tables) := by
  have hnodup := tables.nodup_uuid.sublist
    ((List.filter_sublist
      (p := fun row => row.videoId = videoId && f.admits row)).map EventRow.uuid)
  refine (List.Nodup.of_map (fun key : BigInteger ×ₗ Uuid => (ofLex key).2) ?_)
  rw [List.map_map]
  exact hnodup

theorem paginatedEvents_eq (filtered : List EventRow) (cursor : Option (BigInteger ×ₗ Uuid))
    (limit : ℕ) :
    paginatedEvents filtered (cursor.map fun key => ((ofLex key).1.val, (ofLex key).2)) limit =
      .ok ((Keyset.orderBy EventRow.key
        (Keyset.after EventRow.key cursor filtered)).take limit) := by
  have hsort (rows : List EventRow) :
      rows.insertionSort EventRow.precedes = Keyset.orderBy EventRow.key rows := by
    have hrel : EventRow.precedes = fun row row' => row.key ≤ row'.key := by
      funext row row'
      exact propext (precedes_iff row row')
    rw [Keyset.orderBy]
    congr!
  cases cursor with
  | none =>
    rw [Keyset.after_none, ← hsort]
    rfl
  | some key =>
    have hfilter : filtered.filter (fun row => row.isAfter (ofLex key).1 (ofLex key).2) =
        Keyset.after EventRow.key (some key) filtered := by
      refine List.filter_congr fun row _ => ?_
      rw [Bool.eq_iff_iff, isAfter_iff, decide_eq_true_iff]
      simp
    rw [Option.map_some, paginatedEvents, if_pos (ofLex key).1.property, hsort, hfilter]

theorem decodeEventCursor_writeEventKey (T : DigitTable) (key : BigInteger ×ₗ Uuid) :
    decodeEventCursor T (writeEventKey key) = .ok ((ofLex key).1, (ofLex key).2) :=
  decodeEventCursor_encode T ((length_decimal_of_isBigInteger (ofLex key).1.property).trans
    (by decide)) _

/-! ### Requests -/

/-- A page, as a client sees it who follows the cursors. -/
def eventPage (T : DigitTable) (user : Caller) (videoId : VideoId) (f : EventFilter)
    (tables : Tables) (limit : ℕ) (cursor : Option (List ℕ)) :
    Except ListingError (Keyset.Page EventRow (List ℕ)) :=
  (listVideoEvents T tables user videoId f limit cursor).map fun response =>
    ⟨response.rows, response.nextCursor⟩

/-- The response for the rows that the query has found. -/
def eventsResponse (tables : Tables) (videoId : VideoId) (video : Events.Video) (f : EventFilter)
    (limit : ℕ) (rows : List EventRow) : VideoEventsResponse :=
  let hasMore := limit < rows.length
  let rows' := if hasMore then rows.take limit else rows
  { video := video
    shotClockEnabled := ((tables.games videoId).map GameClock.shotClockEnabled).getD false
    shotClockSeconds := (tables.games videoId).bind GameClock.shotClockSeconds
    rows := rows'
    total := (matchingEvents videoId f tables).length
    nextCursor :=
      if hasMore then rows'.getLast?.map fun last => encodeEventCursor last.eventTimeMs last.uuid
      else none
    summary := computeEventSummaryCounts tables videoId }

/-- A coach who asks for a page of a video gets what the query finds. -/
theorem listVideoEvents_eq (hvideo : tables.videos videoId = some video)
    (hcoach : user.isCoach video.teamId = true) (hlimit : 1 ≤ limit ∧ limit ≤ videoEventsMaxLimit)
    {cursor : Option (List ℕ)} (hcursor : ∀ c ∈ cursor, 1 ≤ c.length ∧ c.length ≤ 128) :
    listVideoEvents T tables user videoId f limit cursor =
      (cursor.mapM (decodeEventCursor T)).bind fun cursor =>
        (paginatedEvents (matchingEvents videoId f tables) cursor (limit + 1)).map
          (eventsResponse tables videoId video f limit) := by
  unfold listVideoEvents
  rw [if_neg (not_not_intro hlimit), if_neg (not_not_intro hcursor), hvideo]
  dsimp only
  rw [if_neg (not_not_intro hcoach)]
  rfl

theorem listVideoEvents_of_read (hvideo : tables.videos videoId = some video)
    (hcoach : user.isCoach video.teamId = true) (hlimit : 1 ≤ limit ∧ limit ≤ videoEventsMaxLimit)
    {c : List ℕ} (hc : 1 ≤ c.length ∧ c.length ≤ 128) {pair : ℤ × Uuid}
    (hread : decodeEventCursor T c = .ok pair) :
    listVideoEvents T tables user videoId f limit (some c) =
      (paginatedEvents (matchingEvents videoId f tables) (some pair) (limit + 1)).map
        (eventsResponse tables videoId video f limit) := by
  rw [listVideoEvents_eq hvideo hcoach hlimit fun c' hc' => Option.mem_some.mp hc' ▸ hc,
    Option.mapM_some, hread]
  rfl

/-- **A request gives a page of the events that match its filters.** -/
theorem eventPage_eq (hvideo : tables.videos videoId = some video)
    (hcoach : user.isCoach video.teamId = true) (hlimit : 1 ≤ limit ∧ limit ≤ videoEventsMaxLimit)
    (cursor : Option (BigInteger ×ₗ Uuid)) :
    eventPage T user videoId f tables limit (cursor.map writeEventKey) =
      .ok ⟨(Keyset.page EventRow.key (matchingEvents videoId f tables) limit cursor).rows,
        (Keyset.page EventRow.key (matchingEvents videoId f tables) limit cursor).next.map
          writeEventKey⟩ := by
  have hlength : ∀ c ∈ cursor.map writeEventKey, 1 ≤ c.length ∧ c.length ≤ 128 := by
    intro c hc
    obtain ⟨key, -, rfl⟩ := Option.map_eq_some_iff.mp hc
    exact length_encodeEventCursor (ofLex key).1.property _
  have hread : (cursor.map writeEventKey).mapM (decodeEventCursor T) =
      .ok (cursor.map fun key => ((ofLex key).1.val, (ofLex key).2)) := by
    cases cursor with
    | none => rfl
    | some key =>
      show (decodeEventCursor T (writeEventKey key)).map some = _
      rw [decodeEventCursor_writeEventKey]
      rfl
  rw [eventPage, listVideoEvents_eq hvideo hcoach hlimit hlength, hread]
  show ((paginatedEvents _ _ _).map _).map _ = _
  rw [paginatedEvents_eq, Keyset.page]
  generalize (Keyset.orderBy EventRow.key (Keyset.after EventRow.key cursor
    (matchingEvents videoId f tables))).take (limit + 1) = found
  show Except.ok _ = _
  congr 1
  by_cases hmore : limit < found.length
  · simp only [eventsResponse, if_pos hmore, Option.map_map]
    rfl
  · simp only [eventsResponse, if_neg hmore, Option.map_none]

/-! ### Cursors of clients -/

theorem paginatedEvents_error {filtered : List EventRow} {cursor : Option (ℤ × Uuid)}
    {e : ListingError} (h : paginatedEvents filtered cursor limit = .error e) :
    ∃ time id, cursor = some (time, id) ∧ ¬ IsBigInteger time := by
  unfold paginatedEvents at h
  split at h
  · cases h
  · split at h
    · cases h
    · exact ⟨_, _, rfl, ‹_›⟩

/-- The database refuses a query only because of the number in its cursor. -/
theorem exists_of_databaseError {cursor : Option (List ℕ)}
    (h : listVideoEvents T tables user videoId f limit cursor = .error .databaseError) :
    ∃ c ∈ cursor, ∃ time id, decodeEventCursor T c = .ok (time, id) ∧ ¬ IsBigInteger time := by
  by_cases hlimit : 1 ≤ limit ∧ limit ≤ videoEventsMaxLimit
  · by_cases hcursor : ∀ c ∈ cursor, 1 ≤ c.length ∧ c.length ≤ 128
    · cases hvideo : tables.videos videoId with
      | none =>
        unfold listVideoEvents at h
        rw [if_neg (not_not_intro hlimit), if_neg (not_not_intro hcursor), hvideo] at h
        cases h
      | some video =>
        by_cases hcoach : user.isCoach video.teamId = true
        · rw [listVideoEvents_eq hvideo hcoach hlimit hcursor] at h
          cases cursor with
          | none => cases h
          | some c =>
            rcases decodeEventCursor_cases T c with ⟨time, id, hread⟩ | hread
            · rw [← listVideoEvents_eq hvideo hcoach hlimit hcursor,
                listVideoEvents_of_read hvideo hcoach hlimit (hcursor c rfl) hread] at h
              cases hrows : paginatedEvents (matchingEvents videoId f tables) (some (time, id))
                  (limit + 1) with
              | ok rows =>
                rw [hrows] at h
                cases h
              | error e =>
                obtain ⟨time', id', he, hbig⟩ := paginatedEvents_error hrows
                obtain ⟨rfl, rfl⟩ := Prod.mk.inj (Option.some.inj he)
                exact ⟨c, rfl, time, id, hread, hbig⟩
            · rw [Option.mapM_some, hread] at h
              cases h
        · unfold listVideoEvents at h
          rw [if_neg (not_not_intro hlimit), if_neg (not_not_intro hcursor), hvideo] at h
          dsimp only at h
          rw [if_pos hcoach] at h
          cases h
    · unfold listVideoEvents at h
      rw [if_neg (not_not_intro hlimit), if_pos hcursor] at h
      cases h
  · unfold listVideoEvents at h
    rw [if_pos hlimit] at h
    cases h

/-- What is expected of the cursor that a client sends. -/
structure CursorIsHarmless (T : DigitTable) (cursor : List ℕ) : Prop where
  /-- It is read as a time that the column can have and an id, or it is rejected. -/
  read : (∃ time id, decodeEventCursor T cursor = .ok (time, id) ∧ IsBigInteger time) ∨
    decodeEventCursor T cursor = .error (.validationFailed "Invalid pagination cursor" cursor)
  /-- It does not make the query fail. -/
  query : ∀ tables user videoId f limit,
    listVideoEvents T tables user videoId f limit (some cursor) ≠ .error .databaseError

/-- **The cursor is a faithful encoding, and what a client sends is harmless if and only if** it
does not name a number that the column cannot have. -/
theorem cursor_iff (T : DigitTable) :
    (∀ time id, IsBigInteger time →
      decodeEventCursor T (encodeEventCursor time id) = .ok (time, id)) ∧
    ∀ cursor, CursorIsHarmless T cursor ↔ ¬ NamesLongInteger T cursor := by
  refine ⟨fun time id h => decodeEventCursor_encode T
    ((length_decimal_of_isBigInteger h).trans (by decide)) id, fun cursor => ?_⟩
  rw [← forall_isBigInteger_iff]
  constructor
  · rintro ⟨hread, -⟩ time id hok
    rcases hread with ⟨time', id', hok', hbig⟩ | herror
    · obtain ⟨rfl, rfl⟩ := Prod.mk.inj (Except.ok.inj (hok.symm.trans hok'))
      exact hbig
    · rw [herror] at hok
      cases hok
  · intro h
    refine ⟨?_, fun tables user videoId f limit he => ?_⟩
    · rcases decodeEventCursor_cases T cursor with ⟨time, id, hok⟩ | herror
      · exact .inl ⟨time, id, hok, h time id hok⟩
      · exact .inr herror
    · obtain ⟨c, hc, time, id, hok, hbig⟩ := exists_of_databaseError he
      obtain rfl := Option.mem_some.mp hc
      exact hbig (h time id hok)

/-- One video without events. -/
def noEvents : Tables where
  videos _ := some (Events.sampleVideo 60)
  games _ := none
  events := []
  nodup_uuid := List.nodup_nil

/-- The id of an event. -/
def someUuid : Uuid := ⟨0x3fe1ac5bbd6445b6b0d6eff83fb07a53, by decide⟩

/-- The first time that the column can have, and a cursor without a colon. -/
theorem cursor_firstTime :
    decodeEventCursor DigitTable.ascii (encodeEventCursor (-9223372036854775808) someUuid) =
      .ok (-9223372036854775808, someUuid) ∧ CursorIsHarmless DigitTable.ascii "NDI".codePoints := by
  refine ⟨(cursor_iff DigitTable.ascii).1 (-9223372036854775808) someUuid (by decide),
    ((cursor_iff DigitTable.ascii).2 _).mpr ?_⟩
  rintro ⟨numeral, idPart, negative, digits, htext, -⟩
  have hdecoded : cursorText "NDI".codePoints = some [52, 50] := by decide +kernel
  rw [hdecoded] at htext
  have hmem : 58 ∈ ([52, 50] : List ℕ) := by
    rw [Option.some.inj htext]
    exact List.mem_append_right _ List.mem_cons_self
  revert hmem
  decide

/-- The cursor of an event that no table can have. -/
def lateCursor : List ℕ := encodeEventCursor 9223372036854775808 .zero

/-- **A number that the column cannot have can be named.** -/
theorem exists_not_cursorIsHarmless : ∃ cursor, 1 ≤ cursor.length ∧ cursor.length ≤ 128 ∧
    listVideoEvents DigitTable.ascii noEvents Events.sampleCoach 0 ⟨[], [], none⟩ 50 (some cursor) =
      .error .databaseError ∧ ¬ CursorIsHarmless DigitTable.ascii cursor := by
  have hdigits : (decimal 9223372036854775808).length ≤ 19 :=
    (length_decimal_le_iff (by decide)).mpr (by decide)
  have hlength : 1 ≤ lateCursor.length ∧ lateCursor.length ≤ 128 := by
    rw [lateCursor, encodeEventCursor, Base64.length_urlEncode fun c hc =>
      (lt_of_mem_raw hc).trans (by decide), List.length_append, List.length_cons, Uuid.length_hex]
    have hnumeral : decimalInt 9223372036854775808 = decimal 9223372036854775808 := rfl
    rw [hnumeral]
    omega
  have hread : decodeEventCursor DigitTable.ascii lateCursor =
      .ok (9223372036854775808, .zero) :=
    decodeEventCursor_encode DigitTable.ascii (hdigits.trans (by decide)) _
  have hrefused : listVideoEvents DigitTable.ascii noEvents Events.sampleCoach 0 ⟨[], [], none⟩ 50
      (some lateCursor) = .error .databaseError := by
    have hvideo : noEvents.videos 0 = some (Events.sampleVideo 60) := rfl
    rw [listVideoEvents_of_read hvideo rfl (by decide) hlength hread, paginatedEvents,
      if_neg (by decide)]
    rfl
  exact ⟨lateCursor, hlength.1, hlength.2, hrefused, fun h => h.query _ _ _ _ _ hrefused⟩

end NextBallUp.Pages
