import NextBallUp.Jobs

/-!
# Processes

Where each process of the pipeline can stand between two statements, and what it then knows. The
local variables of a function are the arguments of its program points; a point is named after the
statement that comes next.

## Main definitions

* `Answer`: what the environment decides in a turn
* one `Pc` for each function, under the function's name
* `Proc`: a process

## What is deliberately absent

Two statements are two program points when something of another process can come between them.
Statements that take no lock and whose outcome cannot change in between are one point.
-/

namespace NextBallUp

/-- The settings that the modelled functions read. -/
structure Settings where
  storageConfigured : Bool
  uploadUrlExpiresSeconds : ℕ
  uploadMultipartThresholdBytes : ℕ
  rawVideoRetentionDays : ℕ
  rawVideoRetentionCleanupBatchSize : ℕ
  workerDispatchIntervalSeconds : ℕ
  workerStaleHeartbeatSeconds : ℕ
  workerAbandonedUploadGraceSeconds : ℕ
  cvPipelineEnabled : Bool

/-- The defaults of `nextballup_core.settings`, with an object storage. -/
def Settings.default : Settings where
  storageConfigured := true
  uploadUrlExpiresSeconds := 3600
  uploadMultipartThresholdBytes := 1073741824
  rawVideoRetentionDays := 365
  rawVideoRetentionCleanupBatchSize := 100
  workerDispatchIntervalSeconds := 10
  workerStaleHeartbeatSeconds := 300
  workerAbandonedUploadGraceSeconds := 300
  cvPipelineEnabled := false

/-- What the environment decides in a turn. -/
inductive Answer
  /-- Nothing unusual happens. -/
  | ok
  /-- The storage or broker call raises and has done nothing. -/
  | fault
  /-- The storage or broker call raises and has done its work nevertheless. -/
  | faultApplied
  /-- The database statement raises, and the transaction is rolled back. -/
  | error (message : String)
  /-- `worker_heartbeat_interval_seconds` have passed. -/
  | timer
  /-- `MaxRetriesExceededError` instead of a scheduled retry. -/
  | exhausted
  /-- The media tools have produced an output. -/
  | output (sha256 : Sha256) (size : ℕ)
  /-- A `PermanentProcessingError` or `TransientProcessingError` of code that only looks at the
  file, the plan or the model artifacts. -/
  | raised (retryable : Bool) (code : ErrorCode) (message : String)
  /-- The broker delivers the message at this place of its queue. `again`: it has not been
  acknowledged, and the broker will deliver it once more. -/
  | deliver (n : ℕ) (again : Bool)
  /-- The rows of a query for videos. -/
  | videos (ids : List VideoId)
  /-- The rows of a query for jobs. -/
  | jobs (ids : List JobId)
  | seconds (n : ℕ)
  deriving DecidableEq, Repr

/-- The storage or broker call has had its effect. -/
def Answer.applied (a : Answer) : Bool := a ≠ .fault

/-- The storage or broker call returns. -/
def Answer.returns (a : Answer) : Bool := a ≠ .fault ∧ a ≠ .faultApplied

/-- The database statement raises. -/
def Answer.isError : Answer → Bool
  | .error _ => true
  | _ => false

theorem Answer.isError_iff {a : Answer} : a.isError = true ↔ ∃ message, a = .error message := by
  cases a <;> simp [isError]

theorem Answer.ne_error {a : Answer} (h : a.isError = false) (message : String) :
    a ≠ .error message := by
  rintro rfl
  cases h

/-! ### Worker executions -/

/-- One execution of a Celery task for a processing job. -/
structure Execution where
  taskId : TaskId
  job : JobId
  deriving DecidableEq, Repr

/-- The exception that an execution handles. -/
structure TaskError where
  retryable : Bool
  code : ErrorCode
  message : String
  deriving DecidableEq, Repr

/-- `BrowserMezzanineArtifact`. -/
structure Artifact where
  mezzanineKey : StorageKey
  outputSha256 : Sha256
  outputSizeBytes : ℕ
  deriving DecidableEq, Repr

/-- `execute_transcode`, from `loadJob` to `deleteOutput`; `_handle_task_failure`, from
`checkActive` to `setFailed`; and `retry`, the end of `run_transcode`. -/
inductive ExecuteTranscode.Pc
  | loadJob
  | claimJob
  | setProcessing
  | heartbeat10
  | loadVideo
  | verifyStorage (video : Video)
  | heartbeat50 (video : Video) (verification : Verification)
  /-- The download of the raw object, with which `create_browser_mezzanine` begins. -/
  | download (video : Video) (verification : Verification)
  /-- The media tools. -/
  | transcode (video : Video) (verification : Verification)
  | uploadOutput (video : Video) (verification : Verification) (sha256 : Sha256) (size : ℕ)
  | headOutput (video : Video) (verification : Verification) (sha256 : Sha256)
  | lockJob (video : Video) (verification : Verification) (artifact : Artifact)
  | materialize (video : Video) (verification : Verification) (artifact : Artifact)
      (job : ProcessingJob)
  | auditOutput (verification : Verification) (artifact : Artifact)
  | heartbeat80 (verification : Verification) (artifact : Artifact)
  | completeJob (verification : Verification) (artifact : Artifact)
  /-- `job` is the row as `complete_job` found it, `completed` the row it returned. -/
  | setProcessed (job completed : ProcessingJob)
  | deleteOutput (artifact : Artifact)
  | checkActive (err : TaskError)
  | releaseJob (err : TaskError) (resultMetadata : Option Metadata)
  /-- `job` is the row as `release_job_for_retry` found it and the row it returned. -/
  | setQueued (err : TaskError) (job : Option (ProcessingJob × ProcessingJob))
  | failJob (err : TaskError)
  /-- `job` is the row as `fail_job` found it and the row it returned. -/
  | setFailed (job : Option (ProcessingJob × ProcessingJob))
  | retry (err : TaskError)

/-- `execute_cv_stage` and `_terminal_cv_failure`. -/
inductive ExecuteCvStage.Pc
  | loadJob
  | claimJob
  | auditStarted
  | loadVideo
  | loadUpstream
  | heartbeat25
  | selectArtifact
  | heartbeat75 (contractOnly : Bool)
  | completeJob (contractOnly : Bool)
  | failJob (code : ErrorCode) (message : String)

/-- `_terminal_failure`, which `TranscodeTask.on_failure` and `CVStageTask.on_failure` run. -/
inductive TerminalFailure.Pc
  | getJob
  | failJob
  /-- `job` is the row as `fail_job` found it and the row it returned. -/
  | setFailed (job : Option (ProcessingJob × ProcessingJob))

/-! ### Maintenance -/

/-- `dispatch_pending_jobs`. -/
inductive DispatchPendingJobs.Pc
  | select
  | enqueue (job : JobId) (rest : List JobId) (dispatched : List JobId)
  | record (job : JobId) (taskId : TaskId) (rest : List JobId) (dispatched : List JobId)
  | finished (dispatched : List JobId)

/-- What one turn of the loop of `recover_stale_jobs` did. -/
structure RecoverTurn where
  job : JobId
  /-- The row as `fail_job` found it; `none`: it matched no row. The source ignores this. -/
  found : Option ProcessingJob
  /-- When `fail_job` was executed. -/
  time : Time
  deriving DecidableEq, Repr

/-- `recover_stale_jobs`. A job comes with the row that the query returned. -/
inductive RecoverStaleJobs.Pc
  | select
  /-- `locked`: the query's transaction is still open. -/
  | failJob (job : JobId × ProcessingJob) (rest : List (JobId × ProcessingJob)) (locked : Bool)
      (turns : List RecoverTurn)
  | setFailed (job : JobId × ProcessingJob) (failed : Option (ProcessingJob × ProcessingJob))
      (time : Time) (rest : List (JobId × ProcessingJob)) (turns : List RecoverTurn)
  | finished (turns : List RecoverTurn)

/-- What one turn of the loop of `cleanup_abandoned_uploads` did. -/
structure AbandonedTurn where
  video : VideoId
  /-- The row that the `UPDATE` moved to FAILED; `none`: it matched no row. The source ignores
  this. -/
  moved : Option Video
  /-- The turn called the storage to abort the upload or delete the object. -/
  cleaned : Bool
  /-- The turn wrote a quota release. -/
  released : Bool
  deriving DecidableEq, Repr

/-- `cleanup_abandoned_uploads`. A video comes with the row that the query returned. -/
inductive CleanupAbandonedUploads.Pc
  | select
  | cleanStorage (video : VideoId × Video) (rest : List (VideoId × Video))
      (turns : List AbandonedTurn)
  | setFailed (video : VideoId × Video) (cleaned : Bool) (rest : List (VideoId × Video))
      (turns : List AbandonedTurn)
  /-- `moved` is the row as the `UPDATE` found it. -/
  | sumReserved (video : VideoId × Video) (moved : Option Video) (cleaned : Bool)
      (rest : List (VideoId × Video)) (turns : List AbandonedTurn)
  | release (video : VideoId × Video) (moved : Option Video) (cleaned : Bool)
      (account : Option AccountId) (net : ℤ) (rest : List (VideoId × Video))
      (turns : List AbandonedTurn)
  | finished (turns : List AbandonedTurn)

/-- Which of the two passes that delete raw objects. -/
inductive RawPass
  /-- `cleanup_expired_raw_videos` -/
  | expired
  /-- `retry_raw_video_storage_deletes` -/
  | retry
  deriving DecidableEq, Repr

/-- `cleanup_expired_raw_videos` and `retry_raw_video_storage_deletes`. A video comes with the row
that the query returned; `now` is the time at which the expiry pass started. -/
inductive RawDeletes.Pc
  | select
  /-- Only `cleanup_expired_raw_videos` marks the deletion before it deletes. -/
  | request (video : VideoId × Video) (rest : List (VideoId × Video)) (now : Time)
      (deleted : List VideoId)
  | deleteObject (video : VideoId × Video) (rest : List (VideoId × Video)) (now : Time)
      (deleted : List VideoId)
  | markFailed (video : VideoId × Video) (rest : List (VideoId × Video)) (now : Time)
      (deleted : List VideoId)
  | markDeleted (video : VideoId × Video) (rest : List (VideoId × Video)) (now : Time)
      (deleted : List VideoId)
  | finished (deleted : List VideoId)

/-! ### Requests -/

/-- `POST /videos/upload` by a coach of the team. -/
structure InitiateUpload where
  teamId : TeamId
  fileSizeBytes : ℕ
  checksumSha256 : Option Sha256
  /-- The other teams whose videos the row policies show to the request: those of which the coach is
  an active member, and all of them to an administrator, but no deleted one. -/
  otherTeams : List TeamId
  deriving DecidableEq, Repr

/-- `videos_select_access`: the request sees the videos of the team. -/
def InitiateUpload.shows (req : InitiateUpload) (team : TeamId) : Bool :=
  team = req.teamId || req.otherTeams.contains team

inductive InitiateUpload.Pc
  | lockAccount
  | checkUploadQuota (account : AccountId) (plan : Plan)
  | checkStorageQuota (account : AccountId) (plan : Plan)
  | flushVideo (account : AccountId) (plan : Plan)
  | presign (account : AccountId) (plan : Plan) (video : VideoId)
  | insertVideo (account : AccountId) (plan : Plan) (video : VideoId)
      (uploadId : Option UploadId)

/-- `POST /videos/{id}/complete`. -/
structure CompleteUpload where
  videoId : VideoId
  checksumSha256 : Option Sha256
  /-- The object that the submitted parts assemble to; `none`: no parts, or a repeated part
  number. -/
  parts : Option StoredObject
  deriving DecidableEq, Repr

inductive CompleteUpload.Pc
  | lockVideo
  | completeMultipart (video : Video) (id : UploadId) (o : StoredObject)
  | verifyObject (video : Video)
  | deleteRawObject (video : Video)
  | queueTranscode (video : Video)
  | auditFailure

/-- `POST /videos/{id}/cancel-upload`. -/
inductive CancelUpload.Pc
  | lockVideo
  | cleanStorage (video : Video)
  | rollback
  | sumReserved (video : Video)
  | release (video : Video) (account : Option AccountId) (net : ℤ)

/-- What `_delete_video_storage` still has to remove. -/
inductive StorageHandle
  | multipart (id : UploadId) (key : StorageKey)
  | object (key : StorageKey)
  deriving DecidableEq, Repr

/-- `DELETE /videos/{id}`. -/
inductive DeleteFailedVideo.Pc
  | lockVideo
  | cleanStorage (video : Video) (handle : StorageHandle) (rest : List StorageHandle)
      (failures : List StorageHandle)
  | markFailed (video : Video)
  | sumReserved (video : Video)
  | release (video : Video) (account : Option AccountId) (net : ℤ)

/-- `POST /videos/{id}/processing/cancel`, for the transcode stage. `loaded` is the job as the
request loaded it together with the video, `row` as it then locked it. -/
inductive CancelProcessing.Pc
  | lockVideo
  | loadJob (video : Video)
  | lockJob (video : Video) (loaded : Option ProcessingJob)
  | setFailed (video : Video) (loaded row : ProcessingJob)

/-- `POST /videos/{id}/processing/requeue`, for the transcode stage. `loaded` is the job as the
request loaded it together with the video, `row` as it then locked it. -/
inductive RequeueProcessing.Pc
  | lockVideo
  | loadJob (video : Video)
  | lockJob (video : Video) (loaded : Option ProcessingJob)
  | headRaw (video : Video) (loaded row : ProcessingJob)
  | setPending (video : Video) (loaded row : ProcessingJob)

/-! ### All processes -/

/-- A process. -/
inductive Proc
  /-- A worker slot that waits for a message. -/
  | worker
  | transcode (e : Execution) (pc : ExecuteTranscode.Pc)
  | cvStage (e : Execution) (pc : ExecuteCvStage.Pc)
  /-- `failVideo` is false for `CVStageTask`. -/
  | onFailure (e : Execution) (err : TaskError) (failVideo : Bool) (pc : TerminalFailure.Pc)
  | dispatch (pc : DispatchPendingJobs.Pc)
  | recover (pc : RecoverStaleJobs.Pc)
  | abandoned (pc : CleanupAbandonedUploads.Pc)
  | rawDeletes (pass : RawPass) (pc : RawDeletes.Pc)
  | initiate (req : InitiateUpload) (pc : InitiateUpload.Pc)
  | complete (req : CompleteUpload) (pc : CompleteUpload.Pc)
  | cancelUpload (videoId : VideoId) (pc : CancelUpload.Pc)
  | deleteFailed (videoId : VideoId) (pc : DeleteFailedVideo.Pc)
  | cancelProcessing (videoId : VideoId) (userId : UserId) (pc : CancelProcessing.Pc)
  | requeueProcessing (videoId : VideoId) (pc : RequeueProcessing.Pc)
  /-- A client that uploads with a presigned `PUT`. -/
  | client (videoId : VideoId) (o : StoredObject)
  | clock
  | done

/-! ### Turns -/

/-- What a process does in one turn: where it then stands, and its effect. `none`: it has to wait,
or has nothing to do. -/
abbrev Turn := Option (Proc × Effect)

variable {w : World} {pid : Pid} {t : Proc × Effect}

/-- A transaction of one `UPDATE processing_jobs`. -/
def updateJob (w : World) (pid : Pid) (job : JobId) (u : Update ProcessingJob)
    (log : List (AuditAction × Resource)) (next : Option ProcessingJob → Proc) : Turn :=
  w.jobs.locate pid job u.cond fun o =>
    (next (o.map u.set),
      .commit { jobs := (o.map fun r => (job, u.set r)).toList, auditLogs := log })

@[simp] theorem updateJob_eq_some {job : JobId} {u : Update ProcessingJob}
    {log : List (AuditAction × Resource)} {next : Option ProcessingJob → Proc} :
    updateJob w pid job u log next = some t ↔ ∃ o, w.jobs.Located pid job u.cond o ∧
      (next (o.map u.set),
        Effect.commit { jobs := (o.map fun r => (job, u.set r)).toList, auditLogs := log }) = t :=
  Table.locate_eq_some

/-- An `UPDATE videos` that ends a transaction, in which `jobs` and `log` are written too. -/
def updateVideo (w : World) (pid : Pid) (video : VideoId) (u : Update Video)
    (jobs : List (JobId × ProcessingJob)) (log : List (AuditAction × Resource))
    (next : Option Video → Proc) : Turn :=
  w.videos.locate pid video u.cond fun o =>
    (next (o.map u.set),
      .commit { videos := (o.map fun r => (video, u.set r)).toList, jobs, auditLogs := log })

@[simp] theorem updateVideo_eq_some {video : VideoId} {u : Update Video}
    {jobs : List (JobId × ProcessingJob)} {log : List (AuditAction × Resource)}
    {next : Option Video → Proc} :
    updateVideo w pid video u jobs log next = some t ↔ ∃ o, w.videos.Located pid video u.cond o ∧
      (next (o.map u.set), Effect.commit
        { videos := (o.map fun r => (video, u.set r)).toList, jobs, auditLogs := log }) = t :=
  Table.locate_eq_some

/-- An `UPDATE processing_jobs` inside a longer transaction. The process goes on with the row as
the statement found it and the row it returned. -/
def lockAndSetJob (w : World) (pid : Pid) (job : JobId) (u : Update ProcessingJob)
    (next : Option (ProcessingJob × ProcessingJob) → Proc) : Turn :=
  w.jobs.locate pid job u.cond fun o =>
    (next (o.map fun r => (r, u.set r)), .lock (o.map fun _ => job).toList [] [])

@[simp] theorem lockAndSetJob_eq_some {job : JobId} {u : Update ProcessingJob}
    {next : Option (ProcessingJob × ProcessingJob) → Proc} :
    lockAndSetJob w pid job u next = some t ↔ ∃ o, w.jobs.Located pid job u.cond o ∧
      (next (o.map fun r => (r, u.set r)), Effect.lock (o.map fun _ => job).toList [] []) = t :=
  Table.locate_eq_some

end NextBallUp
