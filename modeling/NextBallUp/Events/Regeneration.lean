import NextBallUp.Events.Import
import NextBallUp.Events.Review
import Mathlib.Logic.Relation

/-!
# Reviews and new previews

Each preview that the worker generates for a video replaces the events that it imported for the
video before, and if there is no valid report, it only deletes them. It goes by where an event comes
from, and a review leaves that as it was.

## Main definitions

* `Operation`: the end of a generation, or a call of a coach
* `History`: the tables with what coaches were last told of the events that they have approved,
  rejected or moved
* `Review.IsKept`: an event is still there as its coach has left it
* `Operation.Spares`: a generation finds no such event among those that it imported

## Main results

* `mem_after_generatePreview`: the events that a generation leaves alone
* `isKept_of_reach`: **reviews are kept in every run whose generations find no reviewed event among
  those that they imported**
* `exists_not_isKept`: a second generation after an approval

## What is deliberately absent

Statements of two transactions that overlap: a generation deletes its rows before it commits, and a
review of such a row waits for that and then finds no row.
-/

namespace NextBallUp.Events

open Transaction (Session Spec Preserves)

variable {U : Unicode} {video : Video} {row : VideoEvent}

/-! ### What a generation leaves alone -/

/-- A generation looks for a report of the tagger, or for its error. -/
def syncsTags (alphaCandidateTagsEnabled : Bool) (artifact : DemoPreviewArtifact) : Bool :=
  alphaCandidateTagsEnabled &&
    (artifact.candidateTagsPath.isSome || artifact.candidateTagsError.isSome)

/-- The event is one that a generation for the video has imported. -/
def VideoEvent.IsImportedFor (row : VideoEvent) (video : Video) : Prop :=
  row.videoId = video.id ∧ row.hasSource alphaCandidateSource

/-- A property of the tables that the statements of a generation keep. -/
structure IsStable (video : Video) (P : Db → Prop) : Prop where
  withoutCandidates : ∀ db, P db → P (db.withoutCandidates video)
  append : ∀ db rows, P db → P (db.append rows)
  setJob : ∀ db videoId job, P db → P (db.setJob videoId job)

/-- An event that was not imported for the video stays. -/
theorem isStable_mem (h : ¬row.IsImportedFor video) : IsStable video fun db => row ∈ db.events where
  withoutCandidates _ hrow := mem_withoutCandidates.mpr ⟨hrow, h⟩
  append _ _ hrow := List.mem_append_left _ hrow
  setJob _ _ _ hrow := hrow

/-- Nothing is committed yet, and the open transaction keeps the property. -/
structure IsOpen (db : Db) (P : Db → Prop) (s : Session Db Unit) : Prop where
  committed : s.committed = db
  working : P s.working

section Stable

variable {db : Db} {P : Db → Prop} (hP : IsStable video P)

theorem preserves_query {ε α : Type} {q : Unit → Db → Except ε (α × Db)}
    (h : ∀ s d a d', P d → q s d = .ok (a, d') → P d') :
    Preserves (IsOpen db P) (Transaction.query q) :=
  .query fun _ _ _ hs hq => ⟨hs.committed, h _ _ _ _ hs.working hq⟩

theorem preserves_ofExcept {ε α : Type} (r : Except ε α) :
    Preserves (IsOpen db P) (ofExcept r : Transaction Db Unit ε α) := by
  cases r with
  | ok a => exact .pure a
  | error e => exact .throw e

include hP

theorem preserves_setEventsJob (videoId : VideoId) (job : EventsJob) :
    Preserves (IsOpen db P) (setEventsJob videoId job : Import Unit) := by
  refine preserves_query fun _ d _ _ hd hq => ?_
  cases hq
  exact hP.setJob d videoId job hd

theorem preserves_insertEvents (e : ImportError) (rows : List VideoEvent) :
    Preserves (IsOpen db P) (insertEvents e rows) := by
  refine preserves_query fun _ d _ _ hd hq => ?_
  rw [Db.insert] at hq
  split_ifs at hq
  cases hq
  exact hP.append d rows hd

theorem preserves_deleteAlphaCandidateEvents :
    Preserves (IsOpen db P) (deleteAlphaCandidateEvents video) := by
  refine ⟨fun s hs => ?_⟩
  obtain ⟨n, hn⟩ := deleteAlphaCandidateEvents_apply video s
  rw [hn]
  exact ⟨hs.committed, hP.withoutCandidates _ hs.working⟩

theorem preserves_replaceAlphaCandidateEvents (now : Time) (report : Json.Fields CodePoint) :
    Preserves (IsOpen db P) (replaceAlphaCandidateEvents U video now report) := by
  refine (preserves_deleteAlphaCandidateEvents hP).bind fun _ => ?_
  refine Preserves.bind (preserves_query fun _ _ _ _ hd hq => ?_) fun _ => ?_
  · cases hq
    exact hd
  · refine (preserves_ofExcept _).bind fun _ => ?_
    exact (preserves_insertEvents hP _ _).bind fun _ => .pure _

theorem preserves_markEventsJobFailed (job : EventsJob) (failure : ReportFailure) :
    Preserves (IsOpen db P) (markEventsJobFailed video job failure) :=
  (preserves_deleteAlphaCandidateEvents hP).bind fun _ => preserves_setEventsJob hP _ _

theorem preserves_importReport (recursionLimit : ℕ) (now : Time) (file : Option (List ℕ)) :
    Preserves (IsOpen db P) (importReport U recursionLimit video now file) := by
  cases file with
  | none => exact .throw _
  | some rawReport =>
    refine (preserves_ofExcept _).bind fun _ => ?_
    split
    · exact preserves_replaceAlphaCandidateEvents hP now _
    · exact .throw _
    · exact .throw _
    · exact .throw _

theorem preserves_loadOrCreateEventsJob (requestId : TaskId) :
    Preserves (IsOpen db P) (loadOrCreateEventsJob video requestId) := by
  refine Preserves.bind (preserves_query fun _ _ _ _ hd hq => ?_) fun _ => ?_
  · cases hq
    exact hd
  · exact (preserves_setEventsJob hP _ _).bind fun _ => .pure _

theorem preserves_syncAlphaCandidateTags (recursionLimit : ℕ) (enabled : Bool)
    (artifact : DemoPreviewArtifact) (requestId : TaskId) (now : Time) :
    Preserves (IsOpen db P)
      (syncAlphaCandidateTags U recursionLimit enabled video artifact requestId now) := by
  unfold syncAlphaCandidateTags
  split
  · exact .pure _
  · split
    · exact .pure _
    · refine (preserves_loadOrCreateEventsJob hP requestId).bind fun job => ?_
      split
      · exact (preserves_markEventsJobFailed hP _ _).bind fun _ => .pure _
      · exact (preserves_markEventsJobFailed hP _ _).bind fun _ => .pure _
      · refine Preserves.bind (.tryCatch ?_ fun e => ?_) fun inserted => ?_
        · exact (preserves_importReport hP recursionLimit now _).bind fun _ => .pure _
        · split
          · exact (preserves_markEventsJobFailed hP _ _).bind fun _ => .pure _
          · exact .throw _
        · split
          · exact (preserves_setEventsJob hP _ _).bind fun _ => .pure _
          · exact .pure _

/-- A generation keeps the property if it returns, and changes nothing if it raises. -/
theorem generatePreview_spec (recursionLimit : ℕ) (enabled : Bool) (artifact : DemoPreviewArtifact)
    (requestId : TaskId) (now : Time) :
    Spec (IsOpen db P) (generatePreview U recursionLimit enabled video artifact requestId now)
      (fun _ s => P s.committed) (fun s => s.committed = db) := by
  refine Spec.bind ((preserves_syncAlphaCandidateTags hP recursionLimit enabled artifact requestId
    now).spec.mono (fun _ hs => hs) (fun _ _ hs => hs) fun _ hs => hs.committed) fun inserted => ?_
  refine Spec.bind (Spec.commit (Q := fun _ s => P s.committed) fun _ hs => hs.working) fun _ => ?_
  exact Spec.pure fun _ hs => hs

end Stable

/-- A generation that looks for no report leaves the tables as they are. -/
theorem syncAlphaCandidateTags_of_not_syncs {enabled : Bool} {artifact : DemoPreviewArtifact}
    (h : ¬syncsTags enabled artifact) (recursionLimit : ℕ) (requestId : TaskId) (now : Time)
    (s : Session Db Unit) :
    syncAlphaCandidateTags U recursionLimit enabled video artifact requestId now s =
      (.ok none, s) := by
  unfold syncAlphaCandidateTags
  cases enabled with
  | false => rfl
  | true =>
    rw [syncsTags, Bool.true_and, Bool.or_eq_true, not_or, Bool.not_eq_true, Bool.not_eq_true,
      Option.isSome_eq_false_iff, Option.isSome_eq_false_iff] at h
    rw [h.1, h.2]
    rfl

/-- An event stays unless the generation returns and has imported it before. -/
theorem mem_after_generatePreview {db : Db} (recursionLimit : ℕ) (enabled : Bool)
    (artifact : DemoPreviewArtifact) (requestId : TaskId) (now : Time) (hrow : row ∈ db.events)
    (h : (generatePreview U recursionLimit enabled video artifact requestId now
      ⟨db, db, ()⟩).1.isOk → syncsTags enabled artifact → ¬row.IsImportedFor video) :
    row ∈ (db.after (generatePreview U recursionLimit enabled video artifact requestId
      now)).events := by
  unfold Db.after Transaction.result
  by_cases hsyncs : syncsTags enabled artifact
  · cases hr : generatePreview U recursionLimit enabled video artifact requestId now
      ⟨db, db, ()⟩ with
    | mk r s' =>
      rw [hr] at h
      cases r with
      | ok inserted =>
        have hspec := generatePreview_spec (U := U) (isStable_mem (h rfl hsyncs)) recursionLimit
          enabled artifact requestId now ⟨db, db, ()⟩ ⟨rfl, hrow⟩
        rwa [hr] at hspec
      | error e =>
        have hstable : IsStable video fun _ => True :=
          ⟨fun _ h => h, fun _ _ h => h, fun _ _ _ h => h⟩
        have hspec := generatePreview_spec (U := U) hstable recursionLimit enabled artifact
          requestId now ⟨db, db, ()⟩ ⟨rfl, trivial⟩
        rw [hr] at hspec
        rwa [show s'.committed = db from hspec]
  · rw [generatePreview, Transaction.bind_ok (syncAlphaCandidateTags_of_not_syncs hsyncs _ _ _ _)]
    exact hrow

/-! ### Histories -/

/-- A review that decides about an event: it approves or rejects the event, or moves its window. -/
def UpdateVideoEventReviewRequest.Decides (payload : UpdateVideoEventReviewRequest) : Prop :=
  payload.reviewStatus = .approved ∨ payload.reviewStatus = .rejected ∨
    payload.clipStartTimeMs.isSome ∨ payload.clipEndTimeMs.isSome

instance (payload : UpdateVideoEventReviewRequest) : Decidable payload.Decides :=
  inferInstanceAs (Decidable (_ ∨ _ ∨ _ ∨ _))

/-- What a coach was told of an event, and the video as it was then. -/
structure Review where
  video : Video
  summary : VideoEventSummary

/-- The event is still there, and its coach would be told the same: its status and its window are as
the coach has left them. -/
def Review.IsKept (review : Review) (db : Db) : Prop :=
  ∃ row ∈ db.events, videoEventSummary row review.video = review.summary

/-- The tables, and the last review of each event about which a coach has decided. -/
structure History where
  db : Db
  reviews : EventId → Option Review

/-- The reviews after a call that has returned. -/
def Call.record (reviews : EventId → Option Review) (summary : VideoEventSummary) :
    Call → EventId → Option Review
  | .updateVideoEventReview _ (some video) eventId payload _ =>
    if payload.Decides ∨ (reviews eventId).isSome then
      Function.update reviews eventId (some ⟨video, summary⟩)
    else reviews
  | _ => reviews

inductive Operation
  /-- The end of a generation. -/
  | generatePreview (recursionLimit : ℕ) (alphaCandidateTagsEnabled : Bool) (video : Video)
    (artifact : DemoPreviewArtifact) (requestId : TaskId) (now : Time)
  | call (call : Call)

namespace History

variable (U)

/-- The history goes on by one operation. -/
def next (h : History) : Operation → History
  | .generatePreview recursionLimit enabled video artifact requestId now =>
    { h with
      db := h.db.after
        (Events.generatePreview U recursionLimit enabled video artifact requestId now) }
  | .call call =>
    { db := h.db.after call.run
      reviews := match (call.run ⟨h.db, h.db, ()⟩).1 with
        | .ok summary => call.record h.reviews summary
        | .error _ => h.reviews }

/-- A generation decides about no event. -/
theorem reviews_generatePreview (h : History) (recursionLimit : ℕ) (enabled : Bool) (video : Video)
    (artifact : DemoPreviewArtifact) (requestId : TaskId) (now : Time) :
    (next U h (.generatePreview recursionLimit enabled video artifact requestId now)).reviews =
      h.reviews :=
  rfl

/-- No coach has decided about any event yet. -/
def start (db : Db) : History where
  db := db
  reviews _ := none

/-- No review is lost. -/
def KeepsReviews (h : History) : Prop :=
  ∀ eventId, ∀ review ∈ h.reviews eventId, review.summary.id = eventId ∧ review.IsKept h.db

/-- A generation that replaces the events of a video finds none among them about which a coach has
decided. -/
def Spares (h : History) : Operation → Prop
  | .generatePreview recursionLimit enabled video artifact requestId now =>
    (Events.generatePreview U recursionLimit enabled video artifact requestId now
      ⟨h.db, h.db, ()⟩).1.isOk → syncsTags enabled artifact →
      ∀ row ∈ h.db.events, row.IsImportedFor video → h.reviews row.id = none
  | .call _ => True

/-- One operation of a run whose generations spare the reviews. -/
def Step (h h' : History) : Prop := ∃ operation, Spares U h operation ∧ next U h operation = h'

variable {U}

theorem KeepsReviews.start (db : Db) : (start db).KeepsReviews :=
  fun _ _ h => (Option.not_mem_none _ h).elim

theorem KeepsReviews.generatePreview {h : History} (hkeeps : h.KeepsReviews) {recursionLimit : ℕ}
    {enabled : Bool} {artifact : DemoPreviewArtifact} {requestId : TaskId} {now : Time}
    (hspares : Spares U h
      (.generatePreview recursionLimit enabled video artifact requestId now)) :
    (next U h (.generatePreview recursionLimit enabled video artifact requestId
      now)).KeepsReviews := by
  intro eventId review hreview
  obtain ⟨hid, row, hrow, hsummary⟩ := hkeeps eventId review hreview
  refine ⟨hid, row, mem_after_generatePreview _ _ _ _ _ hrow fun hok hsyncs himported => ?_,
    hsummary⟩
  have hrowid : row.id = eventId := hid ▸ congrArg VideoEventSummary.id hsummary
  rw [← hrowid] at hreview
  have hnone := hspares hok hsyncs row hrow himported
  rw [show h.reviews row.id = some review from hreview] at hnone
  cases hnone

theorem KeepsReviews.taken {h : History} (hkeeps : h.KeepsReviews) {call : Call}
    {summary : VideoEventSummary} {db : Db} (htaken : Taken h.db call summary db) :
    KeepsReviews { db := db, reviews := call.record h.reviews summary } := by
  intro eventId review hreview
  change review ∈ Call.record h.reviews summary call eventId at hreview
  cases htaken with
  | created user payload now hwindow =>
    obtain ⟨hid, row, hrow, hsummary⟩ := hkeeps eventId review hreview
    exact ⟨hid, row, List.mem_append_left _ hrow, hsummary⟩
  | @reviewed video row user payload now window hrow hvideo hstatus hwindow =>
    by_cases he : eventId = row.id
    · subst he
      rw [Call.record] at hreview
      split_ifs at hreview with hdecides
      · rw [Function.update_self] at hreview
        cases hreview
        exact ⟨rfl, _, Db.mem_replace_self hrow rfl, rfl⟩
      · -- Nobody has decided about the event, and this review does not either.
        exact (hdecides (.inr (Option.isSome_of_mem hreview))).elim
    · have hold : review ∈ h.reviews eventId := by
        rw [Call.record] at hreview
        split_ifs at hreview
        · rwa [Function.update_of_ne he] at hreview
        · exact hreview
      obtain ⟨hid, r, hr, hsummary⟩ := hkeeps eventId review hold
      have hrid : r.id ≠ row.id := fun e => he (hid ▸ (congrArg VideoEventSummary.id hsummary) ▸ e)
      exact ⟨hid, r, Db.mem_replace_of_ne hr hrid, hsummary⟩

theorem KeepsReviews.call {h : History} (hkeeps : h.KeepsReviews) (call : Call) :
    (next U h (.call call)).KeepsReviews := by
  unfold next
  dsimp only
  rcases call.taken_or_rejected h.db with ⟨summary, hrun, htaken⟩ | ⟨⟨e, hrun⟩, hafter⟩
  · rw [hrun]
    exact hkeeps.taken htaken
  · rw [hrun, hafter]
    exact hkeeps

theorem KeepsReviews.step {h h' : History} (hkeeps : h.KeepsReviews) (hstep : Step U h h') :
    h'.KeepsReviews := by
  obtain ⟨operation, hspares, rfl⟩ := hstep
  cases operation with
  | generatePreview recursionLimit enabled video artifact requestId now =>
    exact hkeeps.generatePreview hspares
  | call call => exact hkeeps.call call

/-- **In every run whose generations find no event among those that they imported about which a
coach has decided, each such event stays with the status and the window that its coach has left.**
-/
theorem isKept_of_reach {db : Db} {h : History}
    (hreach : Relation.ReflTransGen (Step U) (start db) h) :
    ∀ eventId, ∀ review ∈ h.reviews eventId, review.summary.id = eventId ∧ review.IsKept h.db := by
  show h.KeepsReviews
  induction hreach with
  | refl => exact .start db
  | tail _ hstep ih => exact ih.step hstep

end History

/-! ### Two runs -/

/-- A generation that imports the report. -/
def sampleGeneration : Operation :=
  .generatePreview 1000 true (sampleVideo 30)
    { candidateTagsPath := some (some (sampleReportText "candidate-000001"))
      candidateTagsError := none } 0 0

/-- A coach tags a rebound. -/
def sampleTag : Operation :=
  .call (.createManualVideoEvent sampleCoach (some (sampleVideo 30))
    { eventType := .rebound
      eventTimeMs := 9000
      clipStartTimeMs := none
      clipEndTimeMs := none
      eventTimeMs_nonneg := by decide
      clipStartTimeMs_nonneg := nonneg_of_mem_none
      clipEndTimeMs_nonneg := nonneg_of_mem_none } 0)

/-- A coach approves an event. -/
def sampleApproval (eventId : EventId) : Operation :=
  .call (.updateVideoEventReview sampleCoach (some (sampleVideo 30)) eventId
    { reviewStatus := .approved
      clipStartTimeMs := none
      clipEndTimeMs := none
      clipStartTimeMs_nonneg := nonneg_of_mem_none
      clipEndTimeMs_nonneg := nonneg_of_mem_none } "2026-01-01T00:00:00+00:00")

namespace History

def sampleRun (operations : List Operation) : History :=
  operations.foldl (next .ascii) (start .empty)

theorem reviews_sampleGeneration (h : History) :
    (next .ascii h sampleGeneration).reviews = h.reviews := by
  unfold sampleGeneration
  exact reviews_generatePreview ..

/-- The tag is the only event about which a coach has decided, and no generation has imported it. -/
theorem spared_sampleRun :
    ((sampleRun [sampleGeneration, sampleTag, sampleApproval 1]).reviews 1).isSome ∧
      ∀ row ∈ (sampleRun [sampleGeneration, sampleTag, sampleApproval 1]).db.events,
        row.hasSource alphaCandidateSource →
          ((sampleRun [sampleGeneration, sampleTag, sampleApproval 1]).reviews row.id).isNone := by
  decide +kernel

/-- A generation after the approval of a tag. -/
theorem exists_isKept :
    let h := next .ascii (sampleRun [sampleGeneration, sampleTag, sampleApproval 1])
      sampleGeneration
    (h.reviews 1).isSome ∧
      ∀ eventId, ∀ review ∈ h.reviews eventId,
        review.summary.id = eventId ∧ review.IsKept h.db := by
  have hreach : Relation.ReflTransGen (Step .ascii) (start .empty)
      (sampleRun [sampleGeneration, sampleTag, sampleApproval 1]) :=
    .tail (.tail (.tail .refl ⟨sampleGeneration, fun _ _ _ _ _ => rfl, rfl⟩)
      ⟨sampleTag, trivial, rfl⟩) ⟨sampleApproval 1, trivial, rfl⟩
  have hspares : Spares .ascii (sampleRun [sampleGeneration, sampleTag, sampleApproval 1])
      sampleGeneration := fun _ _ row hrow himported =>
    Option.isNone_iff_eq_none.mp (spared_sampleRun.2 row hrow himported.2)
  refine ⟨?_, isKept_of_reach (hreach.tail ⟨sampleGeneration, hspares, rfl⟩)⟩
  rw [reviews_sampleGeneration]
  exact spared_sampleRun.1

/-- A generation after an approval: the event that was approved is gone. -/
theorem exists_not_isKept :
    let h := sampleRun [sampleGeneration, sampleApproval 0, sampleGeneration]
    ¬∀ eventId, ∀ review ∈ h.reviews eventId,
      review.summary.id = eventId ∧ review.IsKept h.db := by
  intro h hkept
  have hrun : (h.reviews 0).isSome ∧ ∀ row ∈ h.db.events, row.id ≠ 0 := by decide +kernel
  obtain ⟨review, hreview⟩ := Option.isSome_iff_exists.mp hrun.1
  obtain ⟨hid, row, hrow, hsummary⟩ := hkept 0 review hreview
  exact hrun.2 row hrow ((congrArg VideoEventSummary.id hsummary).trans hid)

end History

end NextBallUp.Events
