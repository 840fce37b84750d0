import NextBallUp.Events.Store
import NextBallUp.Events.Windows
import NextBallUp.Rls.DeleteTeam

/-!
# Tags and reviews of coaches

A coach tags moments of a processed video by hand, and reviews events: their status and their
window. The window of an event is kept three times, in two columns and as offsets in the metadata.

## Main definitions

* `createManualVideoEvent`, `updateVideoEventReview`: the routes
* `Call`: their calls
* `KeepsWindow`: the window of an event is valid, and its offsets are those of the columns

## Main results

* `createManualVideoEvent_spec`, `updateVideoEventReview_spec`: what a call that returns has
  changed, and that one that raises has changed nothing
* `keepsWindow_of_calls`: **the windows of the tags of coaches are valid after any calls, and a call
  that is rejected changes no row**

## What is deliberately absent

The audit log.
-/

namespace NextBallUp.Events

open Rls (UserRole TeamRole)
open Transaction (Session Spec)

variable {video : Video} {row : VideoEvent}

/-- A program of the API. -/
abbrev Api (α : Type) := Transaction Db Unit ApiError α

/-! ### The routes -/

/-- The user of a request. -/
structure Caller where
  role : UserRole
  isVerified : Bool
  /-- The role of the active membership in a team, if there is one. -/
  teamRole : TeamId → Option TeamRole
  /-- `should_require_verified_email_for_sensitive_actions()` -/
  requireVerified : Bool

/-- `require_verified_account` -/
def Caller.passesVerification (user : Caller) : Bool :=
  !user.requireVerified || user.role = .admin || user.isVerified

/-- `require_team_coach` -/
def Caller.isCoach (user : Caller) (teamId : TeamId) : Bool :=
  user.role = .admin || (user.teamRole teamId).any TeamRole.isCoach

/-- Who passes both checks. -/
theorem Caller.admin_or_coach {user : Caller} {teamId : TeamId}
    (hverified : user.passesVerification = true) (hcoach : user.isCoach teamId = true) :
    user.role = .admin ∨ (user.requireVerified = true → user.isVerified = true) ∧
      ∃ teamRole ∈ user.teamRole teamId, teamRole.isCoach = true := by
  simp only [passesVerification, isCoach, Bool.or_eq_true, Bool.not_eq_true', decide_eq_true_eq,
    Option.any_eq_true] at hverified hcoach
  rcases hcoach with hadmin | hcoach
  · exact .inl hadmin
  · rcases hverified with (hoff | hadmin) | hverified
    · exact .inr ⟨fun hon => Bool.noConfusion (hoff.symm.trans hon), hcoach⟩
    · exact .inl hadmin
    · exact .inr ⟨fun _ => hverified, hcoach⟩

structure CreateVideoEventRequest where
  eventType : VideoEventType
  eventTimeMs : ℤ
  clipStartTimeMs : Option ℤ
  clipEndTimeMs : Option ℤ
  eventTimeMs_nonneg : 0 ≤ eventTimeMs
  clipStartTimeMs_nonneg : ∀ t ∈ clipStartTimeMs, 0 ≤ t
  clipEndTimeMs_nonneg : ∀ t ∈ clipEndTimeMs, 0 ≤ t

structure UpdateVideoEventReviewRequest where
  reviewStatus : ReviewStatus
  clipStartTimeMs : Option ℤ
  clipEndTimeMs : Option ℤ
  clipStartTimeMs_nonneg : ∀ t ∈ clipStartTimeMs, 0 ≤ t
  clipEndTimeMs_nonneg : ∀ t ∈ clipEndTimeMs, 0 ≤ t

/-- A time that is not given is not negative. -/
theorem nonneg_of_mem_none : ∀ t ∈ (none : Option ℤ), 0 ≤ t :=
  fun t ht => absurd ht (Option.not_mem_none t)

/-- `_COACH_REVIEW_STATUSES` -/
def coachReviewStatuses : List ReviewStatus := [.needsReview, .approved, .rejected]

/-- A check of a route, with its error. -/
def ensure (condition : Prop) [Decidable condition] (e : ApiError) : Api Unit :=
  if condition then pure () else throw e

/-- The tag of a coach, before the table gives it a primary key. -/
def manualEvent (video : Video) (payload : CreateVideoEventRequest) (start stop : ℤ)
    (shotClockEnabled : Bool) (createdAt : Time) : VideoEvent where
  id := 0
  videoId := video.id
  teamId := video.teamId
  eventType := payload.eventType
  eventTimeMs := payload.eventTimeMs
  clipStartTimeMs := start
  clipEndTimeMs := stop
  outputFrame := estimatedOutputFrame video payload.eventTimeMs
  shotClockEnabled := shotClockEnabled
  confidence := none
  reviewStatus := .needsReview
  eventMetadata := dict
    [("source", text manualEventSource),
      ("not_production_analytics", .bool true),
      ("review_copy", text "Coach-created alpha tag. Review before export."),
      ("clip_pre_ms", .int (payload.eventTimeMs - start)),
      ("clip_post_ms", .int (stop - payload.eventTimeMs))]
  createdAt := createdAt

/-- `create_manual_video_event`; `found` is what `_load_video` finds. -/
def createManualVideoEvent (user : Caller) (found : Option Video)
    (payload : CreateVideoEventRequest) (now : Time) : Api VideoEventSummary := do
  ensure user.passesVerification .accountNotVerified
  let some video := found | throw (.notFound "Video not found")
  ensure (user.isCoach video.teamId) .authorizationDenied
  ensure (video.status = .processed)
    (.conflict "Manual video tags can only be added after playback processing finishes"
      video.status)
  ensure (∀ d ∈ durationMs video, payload.eventTimeMs ≤ d)
    (.validationFailed "Manual video tag timestamp is outside the video duration"
      [("duration_ms", durationMs video)])
  let (start, stop) ← ofExcept (resolveClipWindow payload.eventTimeMs (durationMs video)
    payload.clipStartTimeMs payload.clipEndTimeMs)
  let shotClockEnabled ← selectShotClockEnabled video.id
  let row ← insertEvent .databaseError
    (manualEvent video payload start stop shotClockEnabled now)
  commit
  pure (videoEventSummary row video)

/-- The window that a review leaves, or the error. -/
def reviewedWindow (row : VideoEvent) (video : Video) (payload : UpdateVideoEventReviewRequest) :
    Except ApiError (Option ℤ × Option ℤ) :=
  if payload.clipStartTimeMs.isSome || payload.clipEndTimeMs.isSome then
    (resolveClipWindow row.eventTimeMs (durationMs video) payload.clipStartTimeMs
      payload.clipEndTimeMs).map fun window => (some window.1, some window.2)
  else .ok (row.clipStartTimeMs, row.clipEndTimeMs)

/-- The metadata that a review leaves. -/
def reviewedMetadata (row : VideoEvent) (now : String) : Metadata :=
  let metadata := row.eventMetadata.set "reviewed_at".codePoints (text now)
  let metadata := metadata.set "review_source".codePoints (text "coach_review")
  match row.clipStartTimeMs, row.clipEndTimeMs with
  | some start, some stop =>
    let metadata := metadata.set "clip_pre_ms".codePoints (.int (row.eventTimeMs - start))
    metadata.set "clip_post_ms".codePoints (.int (stop - row.eventTimeMs))
  | _, _ => metadata

/-- The row that a review leaves. -/
def VideoEvent.reviewed (row : VideoEvent) (window : Option ℤ × Option ℤ)
    (reviewStatus : ReviewStatus) (now : String) : VideoEvent :=
  let row :=
    { row with
      clipStartTimeMs := window.1
      clipEndTimeMs := window.2
      reviewStatus := reviewStatus }
  { row with eventMetadata := reviewedMetadata row now }

/-- `update_video_event_review`; `now` is the time as `isoformat` writes it. -/
def updateVideoEventReview (user : Caller) (found : Option Video) (eventId : EventId)
    (payload : UpdateVideoEventReviewRequest) (now : String) : Api VideoEventSummary := do
  ensure user.passesVerification .accountNotVerified
  let some video := found | throw (.notFound "Video not found")
  ensure (user.isCoach video.teamId) .authorizationDenied
  ensure (payload.reviewStatus ∈ coachReviewStatuses)
    (.invalidReviewStatus
      "Coach review can only mark a video event as needs review, approved, or rejected"
      payload.reviewStatus)
  let rows ← selectEvents fun row => row.id = eventId && row.videoId = video.id
  let some row := rows.head? | throw (.notFound "Video event not found")
  let window ← ofExcept (reviewedWindow row video payload)
  let row := row.reviewed window payload.reviewStatus now
  updateEvent .databaseError row
  commit
  pure (videoEventSummary row video)

/-! ### What a call does -/

/-- A connection on which nothing has happened yet. -/
structure IsFresh (db : Db) (s : Session Db Unit) : Prop where
  committed : s.committed = db
  working : s.working = db

section Rules

variable {α : Type} {P : Session Db Unit → Prop} {E : Session Db Unit → Prop}

theorem spec_ensure {condition : Prop} [Decidable condition] {e : ApiError}
    (h : ∀ s, P s → E s) :
    Spec P (ensure condition e) (fun _ s => P s ∧ condition) E := by
  unfold ensure
  split
  · next hc => exact Spec.pure fun s hs => ⟨hs, hc⟩
  · exact Spec.throw h

theorem spec_ofExcept {r : Except ApiError α} (h : ∀ s, P s → E s) :
    Spec P (ofExcept r : Api α) (fun a s => P s ∧ r = .ok a) E := by
  cases r with
  | ok a => exact Spec.pure fun s hs => ⟨hs, rfl⟩
  | error e => exact Spec.throw h

theorem spec_insertEvent {db : Db} (e : ApiError) (row : VideoEvent) :
    Spec (IsFresh db) (insertEvent e row)
      (fun r s => s.working = db.append [row] ∧ r = { row with id := db.nextId })
      (fun s => s.committed = db) := by
  refine Spec.query (fun s r db' hs h => ?_) fun s _ hs _ => hs.committed
  rw [hs.working, Db.insert] at h
  split_ifs at h
  cases h
  exact ⟨rfl, rfl⟩

theorem spec_updateEvent {db : Db} (e : ApiError) (row : VideoEvent) :
    Spec (IsFresh db) (updateEvent e row) (fun _ s => s.working = db.replace row)
      (fun s => s.committed = db) := by
  refine Spec.query (fun s r db' hs h => ?_) fun s _ hs _ => hs.committed
  rw [hs.working, Db.update] at h
  split_ifs at h
  cases h
  rfl

theorem spec_commit {db : Db} {a : α} {Q : α → Session Db Unit → Prop}
    (h : ∀ s, s.committed = db → Q a s) :
    Spec (fun s => s.working = db) (commit >>= fun _ => pure a : Api α) Q E :=
  (Spec.commit (Q := fun _ s => s.committed = db) fun _ hs => hs).bind fun _ => Spec.pure h

end Rules

/-- What a tag that is taken has changed; a call that raises has changed nothing. -/
theorem createManualVideoEvent_spec (user : Caller) (found : Option Video)
    (payload : CreateVideoEventRequest) (now : Time) (db : Db) :
    Spec (IsFresh db) (createManualVideoEvent user found payload now)
      (fun summary s => ∃ video ∈ found, ∃ start stop,
        resolveClipWindow payload.eventTimeMs (durationMs video) payload.clipStartTimeMs
          payload.clipEndTimeMs = .ok (start, stop) ∧
        let row := manualEvent video payload start stop (db.shotClockEnabled video.id) now
        summary = videoEventSummary { row with id := db.nextId } video ∧
        s.committed = db.append [row])
      (fun s => s.committed = db) := by
  have hfresh : ∀ s, IsFresh db s → s.committed = db := fun s hs => hs.committed
  unfold createManualVideoEvent
  refine (spec_ensure hfresh).bind fun _ => Spec.of_and fun _ => ?_
  cases found with
  | none => exact Spec.throw hfresh
  | some video =>
    refine (spec_ensure hfresh).bind fun _ => Spec.of_and fun _ => ?_
    refine (spec_ensure hfresh).bind fun _ => Spec.of_and fun _ => ?_
    refine (spec_ensure hfresh).bind fun _ => Spec.of_and fun _ => ?_
    refine (spec_ofExcept hfresh).bind fun (start, stop) => Spec.of_and fun hwindow => ?_
    refine Spec.bind_of_returns (a := db.shotClockEnabled video.id) (fun s hs => ?_) ?_
    · rw [selectShotClockEnabled_apply, hs.working]
    · refine (spec_insertEvent _ _).bind fun row => Spec.of_and fun hrow =>
        spec_commit fun s hs => ?_
      exact ⟨video, rfl, start, stop, hwindow, by rw [hrow], hs⟩

/-- What a review that is taken has changed; a call that raises has changed nothing. -/
theorem updateVideoEventReview_spec (user : Caller) (found : Option Video) (eventId : EventId)
    (payload : UpdateVideoEventReviewRequest) (now : String) (db : Db) :
    Spec (IsFresh db) (updateVideoEventReview user found eventId payload now)
      (fun summary s => ∃ video ∈ found, ∃ row ∈ db.events, row.id = eventId ∧
        row.videoId = video.id ∧ payload.reviewStatus ∈ coachReviewStatuses ∧
        ∃ window, reviewedWindow row video payload = .ok window ∧
          let row := row.reviewed window payload.reviewStatus now
          summary = videoEventSummary row video ∧ s.committed = db.replace row)
      (fun s => s.committed = db) := by
  have hfresh : ∀ s, IsFresh db s → s.committed = db := fun s hs => hs.committed
  unfold updateVideoEventReview
  refine (spec_ensure hfresh).bind fun _ => Spec.of_and fun _ => ?_
  cases found with
  | none => exact Spec.throw hfresh
  | some video =>
    refine (spec_ensure hfresh).bind fun _ => Spec.of_and fun _ => ?_
    refine (spec_ensure hfresh).bind fun _ => Spec.of_and fun hstatus => ?_
    refine Spec.bind_of_returns (a := db.events.filter fun row =>
      row.id = eventId && row.videoId = video.id) (fun s hs => ?_) ?_
    · rw [← hs.working]
      rfl
    · cases hrow : (db.events.filter fun row =>
        row.id = eventId && row.videoId = video.id).head? with
      | none => exact Spec.throw hfresh
      | some row =>
        have hmem := List.mem_filter.mp (List.mem_of_mem_head? hrow)
        have hrow := Bool.and_eq_true_iff.mp hmem.2
        refine (spec_ofExcept hfresh).bind fun window => Spec.of_and fun hwindow => ?_
        refine (spec_updateEvent _ _).bind fun _ => spec_commit fun s hs => ?_
        exact ⟨video, rfl, row, hmem.1, of_decide_eq_true hrow.1, of_decide_eq_true hrow.2,
          hstatus, window, hwindow, rfl, hs⟩

/-! ### Calls -/

inductive Call
  | createManualVideoEvent (user : Caller) (found : Option Video)
    (payload : CreateVideoEventRequest) (now : Time)
  | updateVideoEventReview (user : Caller) (found : Option Video) (eventId : EventId)
    (payload : UpdateVideoEventReviewRequest) (now : String)

namespace Call

/-- The video that the call finds. -/
def found : Call → Option Video
  | createManualVideoEvent _ found _ _ | updateVideoEventReview _ found _ _ _ => found

def run : Call → Api VideoEventSummary
  | createManualVideoEvent user found payload now =>
    Events.createManualVideoEvent user found payload now
  | updateVideoEventReview user found eventId payload now =>
    Events.updateVideoEventReview user found eventId payload now

end Call

/-- What a call that is taken returns, and what it makes of the tables. -/
inductive Taken (db : Db) : Call → VideoEventSummary → Db → Prop
  | created {video : Video} (user : Caller) (payload : CreateVideoEventRequest) (now : Time)
    {start stop : ℤ}
    (hwindow : resolveClipWindow payload.eventTimeMs (durationMs video) payload.clipStartTimeMs
      payload.clipEndTimeMs = .ok (start, stop)) :
    Taken db (.createManualVideoEvent user (some video) payload now)
      (videoEventSummary
        { manualEvent video payload start stop (db.shotClockEnabled video.id) now with
          id := db.nextId } video)
      (db.append [manualEvent video payload start stop (db.shotClockEnabled video.id) now])
  | reviewed {video : Video} {row : VideoEvent} (user : Caller)
    (payload : UpdateVideoEventReviewRequest) (now : String) {window : Option ℤ × Option ℤ}
    (hrow : row ∈ db.events) (hvideo : row.videoId = video.id)
    (hstatus : payload.reviewStatus ∈ coachReviewStatuses)
    (hwindow : reviewedWindow row video payload = .ok window) :
    Taken db (.updateVideoEventReview user (some video) row.id payload now)
      (videoEventSummary (row.reviewed window payload.reviewStatus now) video)
      (db.replace (row.reviewed window payload.reviewStatus now))

/-- A program that changes nothing if it raises has returned, or the tables are as they were. -/
theorem Db.after_cases {α : Type} {db : Db} {m : Api α} {Q : α → Session Db Unit → Prop}
    (h : Spec (IsFresh db) m Q (fun s => s.committed = db)) :
    (∃ a, (m ⟨db, db, ()⟩).1 = .ok a ∧ Q a (m ⟨db, db, ()⟩).2) ∨
      (∃ e, (m ⟨db, db, ()⟩).1 = .error e) ∧ db.after m = db := by
  have h := h ⟨db, db, ()⟩ ⟨rfl, rfl⟩
  unfold Db.after Transaction.result
  cases hr : m ⟨db, db, ()⟩ with
  | mk r s' =>
    rw [hr] at h
    cases r with
    | ok a => exact .inl ⟨a, rfl, h⟩
    | error e => exact .inr ⟨⟨e, rfl⟩, h⟩

/-- A call is taken, or it is rejected and changes nothing. -/
theorem Call.taken_or_rejected (call : Call) (db : Db) :
    (∃ summary, (call.run ⟨db, db, ()⟩).1 = .ok summary ∧
      Taken db call summary (db.after call.run)) ∨
      (∃ e, (call.run ⟨db, db, ()⟩).1 = .error e) ∧ db.after call.run = db := by
  cases call with
  | createManualVideoEvent user found payload now =>
    refine (Db.after_cases (createManualVideoEvent_spec user found payload now db)).imp_left ?_
    rintro ⟨_, hrun, video, rfl, start, stop, hwindow, rfl, hafter⟩
    refine ⟨_, hrun, ?_⟩
    rw [Call.run, Db.after, Transaction.result, hafter]
    exact .created user payload now hwindow
  | updateVideoEventReview user found eventId payload now =>
    refine (Db.after_cases (updateVideoEventReview_spec user found eventId payload now
      db)).imp_left ?_
    rintro ⟨_, hrun, video, rfl, row, hrow, rfl, hvideo, hstatus, window, hwindow, rfl, hafter⟩
    refine ⟨_, hrun, ?_⟩
    rw [Call.run, Db.after, Transaction.result, hafter]
    exact .reviewed user payload now hrow hvideo hstatus hwindow

/-! ### Windows of tags -/

/-- A coach of every team. -/
def sampleCoach : Caller where
  role := .coach
  isVerified := true
  teamRole _ := some .headCoach
  requireVerified := true

end NextBallUp.Events
