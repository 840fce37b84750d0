import NextBallUp.Maintenance
import Mathlib.Data.List.ReduceOption

/-!
# Requests

The endpoints of `routers/videos.py` that upload, complete, cancel, delete and requeue a video. All
but the first begin by locking the video row, and hold it to the end of the request.

## What is deliberately absent

Authentication, validation of the payload, rate limits, and the body of the response. A request
that ends early is `Proc.done`, whatever its status code.
-/

namespace NextBallUp

/-- The transcode job of a video. -/
def transcodeJob (v : VideoId) : JobId := ⟨v, .transcode⟩

@[simp] theorem videoId_transcodeJob (v : VideoId) : (transcodeJob v).videoId = v := rfl

theorem transcodeJob_videoId {j : JobId} (hs : j.stage = .transcode) :
    transcodeJob j.videoId = j := by
  cases j
  cases hs
  rfl

namespace InitiateUpload

variable (S : Settings) (pid : Pid) (req : InitiateUpload) (w : World)

/-- The audited denial of a quota check. -/
def deny : Turn :=
  some (.done, .commit { auditLogs := [(.billingQuotaDenied, .team req.teamId)] })

/-- The inserted row. -/
def newVideo (video : VideoId) (uploadId : Option UploadId) : Video where
  teamId := req.teamId
  status := .pendingUpload
  fileSizeBytes := req.fileSizeBytes
  checksumSha256 := req.checksumSha256
  storageKeyRaw := some (storageKeyForVideo video)
  storageKeyMezzanine := none
  storageKeyHls := none
  demoPreviewStorageKey := none
  storageOutputSha256 := none
  uploadId := uploadId
  uploadExpiresAt := some (w.now + S.uploadUrlExpiresSeconds)
  rawRetentionExpiresAt := none
  rawDeleteRequestedAt := none
  rawDeleteFailedAt := none
  rawStorageDeletedAt := none
  rawDeletedAt := none
  rawDeleteReason := none

def step (a : Answer) : Pc → Turn
  | .lockAccount =>
    match w.accountTeamLinks req.teamId with
    | none => none
    | some account =>
      match w.accounts.row account with
      | none => deny req
      | some plan =>
        if w.accounts.Free pid account then
          some (.initiate req (.checkUploadQuota account plan), .lock [] [] [account])
        else none
  | .checkUploadQuota account plan =>
    if checkVideoUploadQuota w.usageEvents account plan then
      some (.initiate req (.checkStorageQuota account plan), .skip)
    else deny req
  | .checkStorageQuota account plan =>
    if checkVideoStorageQuota req.shows w account plan req.fileSizeBytes then
      some (.initiate req (.flushVideo account plan), .skip)
    else deny req
  | .flushVideo account plan =>
    if S.storageConfigured then
      -- The primary key: nothing is stored or being inserted under the drawn identifier.
      if w.videos.row w.uuid = none ∧ w.videos.Free pid w.uuid then
        some (.initiate req (.presign account plan w.uuid), .flushVideo)
      else none
    else some (.done, .commit {})
  | .presign account plan video =>
    if a.returns then
      if req.fileSizeBytes ≤ S.uploadMultipartThresholdBytes then
        some (.initiate req (.insertVideo account plan video none), .skip)
      else
        some (.initiate req (.insertVideo account plan video (some w.uuid)),
          .createMultipart (storageKeyForVideo video))
    else some (.done, .commit { auditLogs := [(.videoUploadFailed, .video video)] })
  | .insertVideo _ _ video uploadId =>
    some (.done, .commit {
      videos := [(video, newVideo S req w video uploadId)]
      usageEvents := uploadEvents w req.teamId video req.fileSizeBytes
      auditLogs := [(.videoUploadInitiated, .video video)] })

end InitiateUpload

namespace CompleteUpload

variable (S : Settings) (pid : Pid) (req : CompleteUpload) (w : World)

/-- `_verify_uploaded_object` once the storage has reported the object: `none` if it is missing,
otherwise whether it is the declared one. -/
def isDeclared (video : Video) (o : StoredObject) : Bool :=
  o.contentLength = video.fileSizeBytes &&
    match req.checksumSha256.or video.checksumSha256, o.checksumSha256 with
    | some expected, some actual => actual = expected
    | _, _ => true

/-- The video after the upload is completed. -/
def queued (video : Video) : Video :=
  { video with
    status := .queued
    checksumSha256 := req.checksumSha256.or video.checksumSha256
    uploadId := none
    uploadExpiresAt := none
    rawRetentionExpiresAt := video.rawRetentionExpiresAt.or (some (w.now +
      (match (resolveTeamPlan w video.teamId).bind fun p => p.2.rawVideoRetentionDays with
        | none | some 0 => S.rawVideoRetentionDays
        | some days => days) * 86400)) }

def step (a : Answer) : Pc → Turn
  | .lockVideo =>
    w.videos.locate pid req.videoId (fun _ => true) fun
      | none => (.done, .skip)
      | some video =>
        if video.status = .pendingUpload ∧ S.storageConfigured ∧
            ¬ (req.checksumSha256 ≠ none ∧ video.checksumSha256 ≠ none ∧
              req.checksumSha256 ≠ video.checksumSha256) then
          match video.uploadId, req.parts with
          | none, _ => (.complete req (.verifyObject video), .lock [] [req.videoId] [])
          | some _, none => (.done, .skip)
          | some id, some o =>
            (.complete req (.completeMultipart video id o), .lock [] [req.videoId] [])
        else (.done, .skip)
  | .completeMultipart video id o =>
    match video.storageKeyRaw with
    | none => some (.complete req .auditFailure, .skip)
    | some key =>
      let known := w.multipart id = some key
      some (.complete req (if a.returns ∧ known then .verifyObject video else .auditFailure),
        if a.applied ∧ known then .completeMultipart id key o else .skip)
  | .verifyObject video =>
    match video.storageKeyRaw with
    | none => some (.complete req .auditFailure, .skip)
    | some key =>
      match w.objects key, a.returns with
      | some o, true =>
        some (.complete req
          (if isDeclared req video o then .queueTranscode video else .deleteRawObject video), .skip)
      | _, _ => some (.complete req .auditFailure, .skip)
  | .deleteRawObject video =>
    some (.complete req .auditFailure,
      match video.storageKeyRaw with
      | some key => if a.applied then .deleteObject key else .skip
      | none => .skip)
  | .queueTranscode video =>
    match w.jobs.row (transcodeJob req.videoId) with
    -- `uq_processing_jobs_video_stage`
    | some _ => some (.done, .commit {})
    | none =>
      some (.done, .commit {
        videos := [(req.videoId, queued S req w video)]
        jobs := [(transcodeJob req.videoId, .new w.now)]
        auditLogs := [(.videoUploadCompleted, .video req.videoId),
          (.videoProcessingQueued, .job (transcodeJob req.videoId))] })
  | .auditFailure =>
    some (.done, .commit { auditLogs := [(.videoUploadFailed, .video req.videoId)] })

end CompleteUpload

namespace CancelUpload

variable (S : Settings) (pid : Pid) (v : VideoId) (w : World)

def step (a : Answer) : Pc → Turn
  | .lockVideo =>
    w.videos.locate pid v (fun _ => true) fun
      | none => (.done, .skip)
      | some video =>
        if video.status = .pendingUpload ∧ S.storageConfigured then
          (.cancelUpload v (.cleanStorage video), .lock [] [v] [])
        else (.done, .skip)
  | .cleanStorage video =>
    match video.uploadId, video.storageKeyRaw with
    | some id, some key =>
      let known := w.multipart id = some key
      some (.cancelUpload v (if a.returns ∧ known then .sumReserved video else .rollback),
        if a.applied ∧ known then .abortMultipart id else .skip)
    | none, some key =>
      some (.cancelUpload v (.sumReserved video), if a.applied then .deleteObject key else .skip)
    | _, none => some (.cancelUpload v (.sumReserved video), .skip)
  | .rollback => some (.done, .commit {})
  | .sumReserved video =>
    let sum := sumReserved w video.teamId v
    some (.cancelUpload v (.release video sum.1 sum.2), .skip)
  | .release video account net =>
    some (.done, .commit {
      videos := [(v, CleanupAbandonedUploads.failUpload.set video)]
      usageEvents := releaseEvents account net video.teamId v w.now
      auditLogs := [(.videoUploadAbandoned, .video v)] })

end CancelUpload

namespace DeleteFailedVideo

variable (S : Settings) (pid : Pid) (v : VideoId) (w : World)

/-- The keys of the objects of a video. -/
def storageKeys (video : Video) : List StorageKey :=
  [video.storageKeyRaw, video.storageKeyMezzanine, video.storageKeyHls,
    video.demoPreviewStorageKey].reduceOption

/-- What `_delete_video_storage` removes, in this order. A key that two columns hold is attempted
once. -/
def storageHandles (video : Video) : List StorageHandle :=
  (match video.uploadId, video.storageKeyRaw with
    | some id, some key => [.multipart id key]
    | _, _ => []) ++
  (storageKeys video).eraseDups.map .object

/-- `_video_has_storage_cleanup_work` -/
def hasStorageCleanupWork (video : Video) : Bool :=
  video.uploadId.isSome || !(storageKeys video).isEmpty

/-- What comes after the storage calls that have been made so far. -/
def next (video : Video) (failures : List StorageHandle) : List StorageHandle → Pc
  | [] => if failures = [] then .sumReserved video else .markFailed video
  | handle :: rest => .cleanStorage video handle rest failures

/-- The call that removes one handle. -/
def remove : StorageHandle → Effect
  | .multipart id _ => .abortMultipart id
  | .object key => .deleteObject key

/-- An upload that is not open under the key cannot be aborted. -/
def isKnown : StorageHandle → Bool
  | .multipart id key => w.multipart id = some key
  | .object _ => true

/-- `_mark_video_cleanup_failed` -/
def markCleanupFailed (video : Video) : Video :=
  { video with
    rawDeleteRequestedAt := video.rawDeleteRequestedAt.or (some w.now)
    rawDeleteFailedAt := some w.now
    rawDeleteReason := some .userCleanup }

def step (a : Answer) : Pc → Turn
  | .lockVideo =>
    w.videos.locate pid v (fun _ => true) fun
      | none => (.done, .skip)
      | some video =>
        if video.status = .failed ∨ video.status = .pendingUpload then
          (.deleteFailed v
            (if hasStorageCleanupWork video then
              if S.storageConfigured then next video [] (storageHandles video)
              else .markFailed video
            else .sumReserved video), .lock [] [v] [])
        else (.done, .skip)
  | .cleanStorage video handle rest failures =>
    some (.deleteFailed v (next video
        (if a.returns ∧ isKnown w handle then failures else failures ++ [handle]) rest),
      if a.applied ∧ isKnown w handle then remove handle else .skip)
  | .markFailed video =>
    some (.done, .commit {
      videos := [(v, markCleanupFailed w video)]
      auditLogs := [(.videoDeleteFailed, .video v)] })
  | .sumReserved video =>
    let sum := sumReserved w video.teamId v
    some (.deleteFailed v (.release video sum.1 sum.2), .skip)
  | .release video account net =>
    -- The cascade waits for the rows it deletes.
    if ∀ s ∈ ProcessingJobStage.all, w.jobs.Free pid ⟨v, s⟩ then
      some (.done, .commit {
        deleted := [v]
        usageEvents := releaseEvents account net video.teamId v w.now
        auditLogs := [(.videoDeleted, .video v)] })
    else none

end DeleteFailedVideo

namespace CancelProcessing

variable (pid : Pid) (v : VideoId) (userId : UserId) (w : World)

/-- The metadata of a cancelled job. -/
def cancelledMetadata (job : ProcessingJob) : Metadata :=
  (((((job.resultMetadata.getD []).set .cancelledAt (.time w.now)).set
    .cancelledByUserId (.int userId)).set
    .cancelReason (.text "user_cancelled_processing")).set
    .previousProgressPercent (.int job.progressPercent)).set
    .previousCeleryTaskPresent (.bool job.celeryTaskId.isSome)

/-- The job after the request has changed it. -/
def cancelled (job : ProcessingJob) : ProcessingJob :=
  { job with
    status := .failed
    completedAt := some w.now
    errorMessage := some
      ("[" ++ ErrorCode.processingCancelled.value ++ "] Processing cancelled by coach/admin")
    resultMetadata := some (cancelledMetadata userId w job) }

def step : Pc → Turn
  | .lockVideo =>
    w.videos.locate pid v (fun _ => true) fun
      | none => (.done, .skip)
      | some video =>
        if video.status = .processing ∨ video.status = .queued then
          (.cancelProcessing v userId (.loadJob video), .lock [] [v] [])
        else (.done, .skip)
  | .loadJob video =>
    some (.cancelProcessing v userId (.lockJob video (w.jobs.row (transcodeJob v))), .skip)
  | .lockJob video loaded =>
    w.jobs.locate pid (transcodeJob v) (fun _ => true) fun
      | none => (.done, .commit {})
      | some row =>
        if (loaded.getD row).status = .running then
          (.cancelProcessing v userId (.setFailed video (loaded.getD row) row),
            .lock [transcodeJob v] [] [])
        else (.done, .commit {})
  | .setFailed video loaded row =>
    some (.done, .commit {
      videos := [(v, { video with status := .failed })]
      jobs := [(transcodeJob v, loaded.flush (cancelled userId w loaded) row)]
      auditLogs := [(.videoProcessingCancelled, .job (transcodeJob v))] })

end CancelProcessing

namespace RequeueProcessing

variable (S : Settings) (pid : Pid) (v : VideoId) (w : World)

/-- `_assert_raw_object_requeueable` once the storage has reported the object. -/
def isRequeueable (video : Video) (o : StoredObject) : Bool :=
  o.contentLength = video.fileSizeBytes &&
    match video.checksumSha256, o.checksumSha256 with
    | some expected, some actual => actual = expected
    | _, _ => true

/-- The job after the request has changed it. -/
def requeued (job : ProcessingJob) : ProcessingJob :=
  { job with
    status := .pending
    progressPercent := 0
    errorMessage := none
    resultMetadata := none
    celeryTaskId := none
    startedAt := none
    completedAt := none
    heartbeatAt := none }

def step (a : Answer) : Pc → Turn
  | .lockVideo =>
    w.videos.locate pid v (fun _ => true) fun
      | none => (.done, .skip)
      | some video =>
        if video.status = .failed then
          (.requeueProcessing v (.loadJob video), .lock [] [v] [])
        else (.done, .skip)
  | .loadJob video =>
    some (.requeueProcessing v (.lockJob video (w.jobs.row (transcodeJob v))), .skip)
  | .lockJob video loaded =>
    w.jobs.locate pid (transcodeJob v) (fun _ => true) fun
      | none => (.done, .commit {})
      | some row =>
        if (loaded.getD row).status = .failed ∧ S.storageConfigured ∧
            video.rawDeletedAt = none ∧ video.rawStorageDeletedAt = none then
          (.requeueProcessing v (.headRaw video (loaded.getD row) row),
            .lock [transcodeJob v] [] [])
        else (.done, .commit {})
  | .headRaw video loaded row =>
    match video.storageKeyRaw.bind w.objects, a.returns with
    | some o, true =>
      if isRequeueable video o then
        some (.requeueProcessing v (.setPending video loaded row), .skip)
      else some (.done, .commit {})
    | _, _ => some (.done, .commit {})
  | .setPending video loaded row =>
    some (.done, .commit {
      videos := [(v, { video with status := .queued })]
      jobs := [(transcodeJob v, loaded.flush (requeued loaded) row)]
      auditLogs := [(.videoProcessingRequeued, .job (transcodeJob v))] })

end RequeueProcessing

end NextBallUp
