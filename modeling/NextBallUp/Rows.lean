import NextBallUp.Lib.RowLocks
import Mathlib.Data.Nat.Notation
import Mathlib.Data.Int.Notation

/-!
# Rows, objects and messages

The data the video pipeline works on: the rows of `videos`, `processing_jobs`, `usage_events` and
the billing tables, the objects of the bucket, and the messages of the Celery broker.

## Identifiers

Identifiers the source draws with `uuid4` are numbers below `World.uuid`, which grows with every
draw: two draws never give the same identifier. A processing job is named by its video and stage.
`uq_processing_jobs_video_stage` makes that a key of the table, and a job is deleted only together
with its video, whose identifier is never drawn again. Storage keys contain the team and the video
(and a sanitised file name); both are fixed for a video, so a key is named by its video alone.

## What is deliberately absent

Columns that no function modelled here decides by: file names, cameras, media properties
(`duration_seconds`, `width`, `fps`, …), etags, thumbnails, and the production of HLS manifests and
demo previews, whose keys are columns that only the deletion of a video looks at. Row-level security
is absent too: a session here sees every row. Teams without a billing account are absent, since the
links between teams and accounts do not change here.
-/

namespace NextBallUp

/-- A database session: one worker execution, one request or one maintenance pass. -/
abbrev Pid := ℕ

abbrev VideoId := ℕ

abbrev TeamId := ℕ

abbrev AccountId := ℕ

abbrev UserId := ℕ

/-- A Celery task id. -/
abbrev TaskId := ℕ

/-- The id of a multipart upload. -/
abbrev UploadId := ℕ

/-- A SHA-256 digest. -/
abbrev Sha256 := ℕ

/-- Seconds. -/
abbrev Time := ℕ

/-! ### Enumerations -/

inductive VideoStatus
  | pendingUpload | uploading | uploaded | transcoding | queued | processing | processed | failed
  deriving DecidableEq, Repr

inductive ProcessingJobStage
  | transcode | detection | tracking | courtMapping | events | metrics
  deriving DecidableEq, Repr

/-- `list(ProcessingJobStage)` -/
def ProcessingJobStage.all : List ProcessingJobStage :=
  [.transcode, .detection, .tracking, .courtMapping, .events, .metrics]

theorem ProcessingJobStage.mem_all (s : ProcessingJobStage) : s ∈ all := by
  cases s <;> decide

inductive ProcessingJobStatus
  | pending | running | completed | failed
  deriving DecidableEq, Repr

/-- The error codes of `nextballup_core.constants.ErrorCode` that the pipeline stores. -/
inductive ErrorCode
  | internalError | videoNotFound | storageNotConfigured | processingJobTerminal
  | processingStageUnknown
  | processingStorageFailure | processingChecksumMismatch | processingObjectMissing
  | processingSizeMismatch | processingContentTypeMismatch | processingTranscoderUnavailable
  | processingTranscodeFailed | processingCancelled | processingStaleRecovered
  | cvPipelineDisabled | cvStagePrerequisiteMissing | cvModelArtifactRequired
  deriving DecidableEq, Repr

def ErrorCode.value : ErrorCode → String
  | .internalError => "INTERNAL_ERROR"
  | .videoNotFound => "VIDEO_NOT_FOUND"
  | .storageNotConfigured => "STORAGE_NOT_CONFIGURED"
  | .processingJobTerminal => "PROCESSING_JOB_TERMINAL"
  | .processingStageUnknown => "PROCESSING_STAGE_UNKNOWN"
  | .processingStorageFailure => "PROCESSING_STORAGE_FAILURE"
  | .processingChecksumMismatch => "PROCESSING_CHECKSUM_MISMATCH"
  | .processingObjectMissing => "PROCESSING_OBJECT_MISSING"
  | .processingSizeMismatch => "PROCESSING_SIZE_MISMATCH"
  | .processingContentTypeMismatch => "PROCESSING_CONTENT_TYPE_MISMATCH"
  | .processingTranscoderUnavailable => "PROCESSING_TRANSCODER_UNAVAILABLE"
  | .processingTranscodeFailed => "PROCESSING_TRANSCODE_FAILED"
  | .processingCancelled => "PROCESSING_CANCELLED"
  | .processingStaleRecovered => "PROCESSING_STALE_RECOVERED"
  | .cvPipelineDisabled => "CV_PIPELINE_DISABLED"
  | .cvStagePrerequisiteMissing => "CV_STAGE_PREREQUISITE_MISSING"
  | .cvModelArtifactRequired => "CV_MODEL_ARTIFACT_REQUIRED"

/-- The audit actions the pipeline writes. -/
inductive AuditAction
  | videoUploadInitiated | videoUploadCompleted | videoUploadFailed | videoUploadAbandoned
  | videoProcessingQueued | videoProcessingDispatched | videoProcessingStarted
  | videoProcessingCompleted | videoProcessingFailed | videoProcessingCancelled
  | videoProcessingRecoveredStale | videoProcessingRequeued | videoOutputMaterialized
  | videoRawObjectDeleted | videoRawObjectDeleteFailed | videoDeleted | videoDeleteFailed
  | billingQuotaDenied
  deriving DecidableEq, Repr

/-- The values of `raw_delete_reason`. -/
inductive RawDeleteReason
  | userCleanup | retentionExpired
  deriving DecidableEq, Repr

/-! ### Object storage -/

/-- `raw/{team}/{video}/…`, `mezzanine/{team}/{video}/video.mp4`, and the manifest and the demo
preview of a video. -/
inductive StorageKey
  | raw (videoId : VideoId)
  | mezzanine (videoId : VideoId)
  | hls (videoId : VideoId)
  | demoPreview (videoId : VideoId)
  deriving DecidableEq, Repr

def storageKeyForVideo (videoId : VideoId) : StorageKey := .raw videoId

def storageKeyForMezzanine (videoId : VideoId) : StorageKey := .mezzanine videoId

/-- A stored object. -/
structure StoredObject where
  contentLength : ℕ
  /-- The digest of the content, which only a download shows. -/
  sha256 : Sha256
  /-- The metadata entry `nbu-sha256`, or the object's `ChecksumSHA256`. -/
  checksumSha256 : Option Sha256
  /-- The metadata entry `nbu-output-sha256`. -/
  outputSha256 : Option Sha256
  deriving DecidableEq, Repr

/-! ### Table rows -/

/-- A row of `videos`. -/
structure Video where
  teamId : TeamId
  status : VideoStatus
  /-- Nullable in the schema; the only statement that inserts videos always sets it. -/
  fileSizeBytes : ℕ
  checksumSha256 : Option Sha256
  storageKeyRaw : Option StorageKey
  storageKeyMezzanine : Option StorageKey
  storageKeyHls : Option StorageKey
  demoPreviewStorageKey : Option StorageKey
  storageOutputSha256 : Option Sha256
  uploadId : Option UploadId
  uploadExpiresAt : Option Time
  rawRetentionExpiresAt : Option Time
  rawDeleteRequestedAt : Option Time
  rawDeleteFailedAt : Option Time
  rawStorageDeletedAt : Option Time
  rawDeletedAt : Option Time
  rawDeleteReason : Option RawDeleteReason
  deriving DecidableEq, Repr

/-- The key of a processing job: `UNIQUE (video_id, stage)`. -/
structure JobId where
  videoId : VideoId
  stage : ProcessingJobStage
  deriving DecidableEq, Repr

/-- The keys of `result_metadata`. -/
inductive MetaKey
  | attempt | lastError | lastErrorCode | errorCode | staleSince | cancelledAt | cancelledByUserId
  | cancelReason | previousProgressPercent | previousCeleryTaskPresent | verification | outputs
  | metadataStripped | outputSha256 | outputSizeBytes | stage | contractOnly
  deriving DecidableEq, Repr

/-- What `_verify_storage` reports of the uploaded object. -/
structure Verification where
  storageKey : StorageKey
  contentLength : ℕ
  clientChecksumPresent : Bool
  deriving DecidableEq, Repr

/-- The values of `result_metadata`. -/
inductive MetaValue
  | null
  | int (n : ℕ)
  | bool (b : Bool)
  | text (s : String)
  | code (c : ErrorCode)
  | key (k : StorageKey)
  | stage (s : ProcessingJobStage)
  | time (t : Time)
  | verification (v : Verification)
  deriving DecidableEq, Repr

/-- `result_metadata`, as a dictionary in insertion order. -/
abbrev Metadata := List (MetaKey × MetaValue)

/-- `metadata[key] = value`. -/
def Metadata.set (m : Metadata) (k : MetaKey) (x : MetaValue) : Metadata :=
  m.filter (fun e => e.1 ≠ k) ++ [(k, x)]

/-- `metadata.get(key, 0)`, read as an integer. -/
def Metadata.getNat (m : Metadata) (k : MetaKey) : ℕ :=
  match m.find? fun e => e.1 = k with
  | some (_, .int n) => n
  | _ => 0

/-- A row of `processing_jobs`. -/
structure ProcessingJob where
  status : ProcessingJobStatus
  progressPercent : ℕ
  celeryTaskId : Option TaskId
  createdAt : Time
  startedAt : Option Time
  completedAt : Option Time
  heartbeatAt : Option Time
  errorMessage : Option String
  resultMetadata : Option Metadata
  deriving DecidableEq, Repr

/-- A new job: `ProcessingJob(status=PENDING, progress_percent=0)`. -/
def ProcessingJob.new (now : Time) : ProcessingJob where
  status := .pending
  progressPercent := 0
  celeryTaskId := none
  createdAt := now
  startedAt := none
  completedAt := none
  heartbeatAt := none
  errorMessage := none
  resultMetadata := none

/-- The event keys of `usage_events` the upload flow records. -/
inductive EventKey
  | videoUploadInitiated | videoStorageBytesReserved
  deriving DecidableEq, Repr

/-- A row of `usage_events`. The table is append-only. -/
structure UsageEvent where
  billingAccountId : AccountId
  teamId : TeamId
  eventKey : EventKey
  quantity : ℤ
  occurredAt : Time
  /-- `event_metadata ->> 'video_id'`. -/
  videoId : VideoId
  deriving DecidableEq, Repr

inductive SubscriptionStatus
  | trialing | active | pastDue | canceled | incomplete
  deriving DecidableEq, Repr

/-- An active billing account with an active subscription, as the quota checks see it: the
quotas are those of `plan_quotas_at_activation`, `none` meaning unlimited. -/
structure Plan where
  maxVideosPerMonth : Option ℕ
  maxStorageGb : Option ℕ
  rawVideoRetentionDays : Option ℕ
  currentPeriodStart : Time
  deriving DecidableEq, Repr

/-- What an audit row is about. -/
inductive Resource
  | video (v : VideoId)
  | job (j : JobId)
  /-- A denied upload has no video yet. -/
  | team (t : TeamId)
  deriving DecidableEq, Repr

/-- A row of `audit_logs`. -/
structure AuditLog where
  action : AuditAction
  resource : Resource
  /-- The session that wrote the row. -/
  session : Pid
  deriving DecidableEq, Repr

/-- A Celery message: `run_transcode` or `run_cv_stage`, by the stage of the job, with the job id
as its argument. -/
structure Message where
  taskId : TaskId
  job : JobId
  deriving DecidableEq, Repr

/-! ### The world -/

/-- Everything the processes share: the committed rows and their locks, the append-only tables,
the bucket, the broker, and the clock. -/
structure World where
  videos : Table VideoId Video Pid
  jobs : Table JobId ProcessingJob Pid
  /-- Active accounts. Nothing modelled here writes them, but requests lock them. -/
  accounts : Table AccountId Plan Pid
  accountTeamLinks : TeamId → Option AccountId
  usageEvents : List UsageEvent
  auditLogs : List AuditLog
  objects : StorageKey → Option StoredObject
  /-- The multipart uploads that are neither completed nor aborted. -/
  multipart : UploadId → Option StorageKey
  /-- Messages not yet delivered, scheduled retries among them. -/
  queue : List Message
  /-- The next identifier to be drawn. -/
  uuid : ℕ
  now : Time

/-- What a transaction writes when it commits. -/
structure Tx where
  videos : List (VideoId × Video) := []
  jobs : List (JobId × ProcessingJob) := []
  /-- Deleted videos; their jobs go with them (`ON DELETE CASCADE`). -/
  deleted : List VideoId := []
  usageEvents : List UsageEvent := []
  auditLogs : List (AuditAction × Resource) := []

/-- What one turn of a process does to the world. -/
inductive Effect
  /-- A statement that only reads, or no statement. -/
  | skip
  /-- Rows locked by a statement inside a longer transaction. -/
  | lock (jobs : List JobId) (videos : List VideoId) (accounts : List AccountId)
  /-- The end of a transaction. A rollback is the commit of nothing. -/
  | commit (tx : Tx)
  /-- An inserted but uncommitted video, under the next identifier. -/
  | flushVideo
  | putObject (key : StorageKey) (o : StoredObject)
  | deleteObject (key : StorageKey)
  | createMultipart (key : StorageKey)
  | completeMultipart (id : UploadId) (key : StorageKey) (o : StoredObject)
  | abortMultipart (id : UploadId)
  /-- `send_task`, under the next identifier. -/
  | sendTask (job : JobId)
  /-- A retry of the same task. -/
  | retry (m : Message)
  /-- The message at this place of the queue will not be delivered again. -/
  | ack (n : ℕ)
  | tick (seconds : ℕ)

namespace World

/-- A fresh deployment: accounts and links exist, and nothing has been uploaded. -/
def start (accounts : AccountId → Option Plan) (links : TeamId → Option AccountId) : World where
  videos := .unlocked fun _ => none
  jobs := .unlocked fun _ => none
  accounts := .unlocked accounts
  accountTeamLinks := links
  usageEvents := []
  auditLogs := []
  objects := fun _ => none
  multipart := fun _ => none
  queue := []
  uuid := 0
  now := 0

/-- The commit of a transaction of session `pid`. -/
def commit (w : World) (pid : Pid) (tx : Tx) : World :=
  { w with
    videos := ((w.videos.putAll tx.videos).eraseAll fun v => v ∈ tx.deleted).release pid
    jobs := ((w.jobs.putAll tx.jobs).eraseAll fun j => j.videoId ∈ tx.deleted).release pid
    accounts := w.accounts.release pid
    usageEvents := w.usageEvents ++ tx.usageEvents
    auditLogs := w.auditLogs ++ tx.auditLogs.map fun e => AuditLog.mk e.1 e.2 pid }

@[simp] theorem row_videos_commit (w : World) (pid : Pid) (tx : Tx) (v : VideoId) :
    (w.commit pid tx).videos.row v =
      if v ∈ tx.deleted then none else (w.videos.putAll tx.videos).row v := by
  simp [commit, Table.row_eraseAll]

@[simp] theorem row_jobs_commit (w : World) (pid : Pid) (tx : Tx) (j : JobId) :
    (w.commit pid tx).jobs.row j =
      if j.videoId ∈ tx.deleted then none else (w.jobs.putAll tx.jobs).row j := by
  simp [commit, Table.row_eraseAll]

@[simp] theorem usageEvents_commit (w : World) (pid : Pid) (tx : Tx) :
    (w.commit pid tx).usageEvents = w.usageEvents ++ tx.usageEvents := rfl

def setObject (w : World) (key : StorageKey) (o : Option StoredObject) : World :=
  { w with objects := fun k => if k = key then o else w.objects k }

def setMultipart (w : World) (id : UploadId) (key : Option StorageKey) : World :=
  { w with multipart := fun u => if u = id then key else w.multipart u }

/-- The next identifier is drawn. -/
def draw (w : World) : World := { w with uuid := w.uuid + 1 }

/-- What an effect of session `pid` makes of the world. -/
def apply (w : World) (pid : Pid) : Effect → World
  | .skip => w
  | .lock jobs videos accounts =>
    { w with
      jobs := w.jobs.acquireAll pid jobs
      videos := w.videos.acquireAll pid videos
      accounts := w.accounts.acquireAll pid accounts }
  | .commit tx => w.commit pid tx
  | .flushVideo => { w with videos := w.videos.acquireAll pid [w.uuid] }.draw
  | .putObject key o => w.setObject key (some o)
  | .deleteObject key => w.setObject key none
  | .createMultipart key => (w.setMultipart w.uuid (some key)).draw
  | .completeMultipart id key o => (w.setMultipart id none).setObject key (some o)
  | .abortMultipart id => w.setMultipart id none
  | .sendTask job => { w with queue := w.queue ++ [Message.mk w.uuid job] }.draw
  | .retry m => { w with queue := w.queue ++ [m] }
  | .ack n => { w with queue := w.queue.eraseIdx n }
  | .tick seconds => { w with now := w.now + seconds }

end World

end NextBallUp
