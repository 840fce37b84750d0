import NextBallUp.Billing

/-!
# Maintenance passes

`runtime/dispatch.py` and the passes of `runtime/cleanup.py` over jobs and videos.

## What is deliberately absent

The order in which a query returns its rows is the environment's choice, and so is which of them
it returns under a `LIMIT`. A pass runs to its end: database errors inside a pass are left out.
-/

namespace NextBallUp

/-- The videos that exist or have existed. -/
def World.videoIds (w : World) : List VideoId := List.range w.uuid

/-- The jobs that exist or have existed. -/
def World.jobIds (w : World) : List JobId :=
  w.videoIds.flatMap fun v => ProcessingJobStage.all.map fun s => ⟨v, s⟩

/-- `ids` is what a query for the rows satisfying `p` may return: some of them under a limit, all of
them otherwise. -/
def isQueryResult {K : Type} [DecidableEq K] (all : List K) (p : K → Bool) (limit : Option ℕ)
    (ids : List K) : Bool :=
  decide ids.Nodup && ids.all p &&
    match limit with
    | none => all.all fun k => !p k || k ∈ ids
    | some n => ids.length ≤ n

namespace DispatchPendingJobs

variable (S : Settings) (pid : Pid) (w : World)

/-- The `WHERE` clause of the query. -/
def isPending (r : ProcessingJob) : Bool :=
  r.status = .pending ∧ r.celeryTaskId = none ∧
    r.createdAt + min 5 (max 1 (S.workerDispatchIntervalSeconds / 2)) ≤ w.now

/-- The next turn of the loop. -/
def loop (dispatched : List JobId) : List JobId → Pc
  | [] => .finished dispatched
  | job :: rest => .enqueue job rest dispatched

/-- The `UPDATE` that records the task id. -/
def recordTask (taskId : TaskId) : Update ProcessingJob where
  cond r := r.status = .pending ∧ r.celeryTaskId = none
  set r := { r with celeryTaskId := some taskId }

def step (a : Answer) : Pc → Turn
  | .select =>
    match a with
    | .jobs ids =>
      if isQueryResult w.jobIds (fun j => (w.jobs.row j).any (isPending S w)) (some 100) ids then
        some (.dispatch (loop [] ids), .skip)
      else none
    | _ => none
  | .enqueue job rest dispatched =>
    some (.dispatch (if a.returns then .record job w.uuid rest dispatched
        else loop dispatched rest),
      if a.applied then .sendTask job else .skip)
  | .record job taskId rest dispatched =>
    w.jobs.locate pid job (recordTask taskId).cond fun
      | none => (.dispatch (loop dispatched rest), .skip)
      | some r =>
        (.dispatch (loop (dispatched ++ [job]) rest), .commit {
          jobs := [(job, (recordTask taskId).set r)]
          auditLogs := [(.videoProcessingDispatched, .job job)] })
  | .finished _ => none

end DispatchPendingJobs

namespace RecoverStaleJobs

variable (S : Settings) (pid : Pid) (w : World)

/-- `heartbeat_at` is older than the threshold. -/
def isStale (now : Time) (r : ProcessingJob) : Bool :=
  r.heartbeatAt.any fun t => t + max 1 S.workerStaleHeartbeatSeconds < now

/-- The next turn of the loop. -/
def loop (locked : Bool) (turns : List RecoverTurn) : List (JobId × ProcessingJob) → Pc
  | [] => .finished turns
  | job :: rest => .failJob job rest locked turns

/-- The ids that the pass returns. -/
def recovered (turns : List RecoverTurn) : List JobId := turns.map RecoverTurn.job

/-- The `fail_job` of one turn, for the row that the query returned. -/
def fail (row : ProcessingJob) : Update ProcessingJob :=
  failJob .processingStaleRecovered "heartbeat stale"
    (some ((row.resultMetadata.getD []).set .staleSince
      ((row.heartbeatAt.map MetaValue.time).getD .null))) w.now

def step (a : Answer) : Pc → Turn
  | .select =>
    match a with
    | .jobs ids =>
      if isQueryResult w.jobIds (fun j => w.jobs.Free pid j ∧
          (w.jobs.row j).any fun r => r.status = .running ∧ isStale S w.now r) none ids then
        some (.recover (loop true [] (w.jobs.rows ids)), .lock ids [] [])
      else none
    | _ => none
  | .failJob (job, row) rest _ turns =>
    lockAndSetJob w pid job (fail w row) fun o =>
      .recover (.setFailed (job, row) o w.now rest turns)
  | .setFailed (job, _) failed time rest turns =>
    updateVideo w pid job.videoId (setVideoStatus .failed [.processing, .queued])
      (failed.map fun r => (job, r.2)).toList [(.videoProcessingRecoveredStale, .job job)] fun _ =>
      .recover (loop false (turns ++ [⟨job, failed.map Prod.fst, time⟩]) rest)
  | .finished _ => none

end RecoverStaleJobs

namespace CleanupAbandonedUploads

variable (S : Settings) (pid : Pid) (w : World)

/-- The `WHERE` clause of the query. -/
def isAbandoned (r : Video) : Bool :=
  r.status = .pendingUpload ∧
    r.uploadExpiresAt.any fun t => t + S.workerAbandonedUploadGraceSeconds < w.now

/-- The next turn of the loop. -/
def loop (turns : List AbandonedTurn) : List (VideoId × Video) → Pc
  | [] => .finished turns
  | video :: rest => .cleanStorage video rest turns

/-- The ids that the pass returns. -/
def abandoned (turns : List AbandonedTurn) : List VideoId := turns.map AbandonedTurn.video

/-- The `UPDATE videos` of one turn, which `cancel_upload` does through the ORM. -/
def failUpload : Update Video where
  cond r := r.status = .pendingUpload
  set r := { r with status := .failed, uploadId := none, uploadExpiresAt := none }

def step (a : Answer) : Pc → Turn
  | .select =>
    match a with
    | .videos ids =>
      if isQueryResult w.videoIds (fun v => (w.videos.row v).any (isAbandoned S w)) none ids then
        some (.abandoned (loop [] (w.videos.rows ids)), .skip)
      else none
    | _ => none
  | .cleanStorage (v, row) rest turns =>
    match S.storageConfigured, row.uploadId, row.storageKeyRaw with
    | true, some id, some _ =>
      some (.abandoned (.setFailed (v, row) true rest turns),
        if a.applied then .abortMultipart id else .skip)
    | true, none, some key =>
      some (.abandoned (.setFailed (v, row) true rest turns),
        if a.applied then .deleteObject key else .skip)
    | _, _, _ => some (.abandoned (.setFailed (v, row) false rest turns), .skip)
  | .setFailed (v, row) cleaned rest turns =>
    w.videos.locate pid v failUpload.cond fun
      | none => (.abandoned (.sumReserved (v, row) none cleaned rest turns), .skip)
      | some r => (.abandoned (.sumReserved (v, row) (some r) cleaned rest turns), .lock [] [v] [])
  | .sumReserved (v, row) moved cleaned rest turns =>
    let sum := sumReserved w row.teamId v
    some (.abandoned (.release (v, row) moved cleaned sum.1 sum.2 rest turns), .skip)
  | .release (v, row) moved cleaned account net rest turns =>
    let events := releaseEvents account net row.teamId v w.now
    some (.abandoned (loop (turns ++ [⟨v, moved, cleaned, events ≠ []⟩]) rest),
      .commit {
        videos := (moved.map fun r => (v, failUpload.set r)).toList
        usageEvents := events
        auditLogs := [(.videoUploadAbandoned, .video v)] })
  | .finished _ => none

end CleanupAbandonedUploads

namespace RawDeletes

variable (S : Settings) (pass : RawPass) (pid : Pid) (w : World)

/-- The `WHERE` clauses of the two queries. -/
def isSelected (r : Video) : Bool :=
  r.storageKeyRaw.isSome && r.rawStorageDeletedAt.isNone &&
    match pass with
    | .expired =>
      (r.rawRetentionExpiresAt.any fun t => t ≤ w.now) &&
        (r.status = .processed || r.status = .failed)
    | .retry => r.rawDeleteRequestedAt.isSome

/-- The next turn of the loop. -/
def loop (now : Time) (deleted : List VideoId) : List (VideoId × Video) → Pc
  | [] => .finished deleted
  | video :: rest =>
    match pass with
    | .expired => .request video rest now deleted
    | .retry => .deleteObject video rest now deleted

/-- The time that a turn records: the expiry pass reads the clock once, at its start. -/
def recordedAt (now : Time) : Time :=
  match pass with
  | .expired => now
  | .retry => w.now

/-- `UPDATE videos … WHERE raw_storage_deleted_at IS NULL`. -/
def unlessDeleted (set : Video → Video) : Update Video where
  cond r := r.rawStorageDeletedAt = none
  set := set

def step (a : Answer) : Pc → Turn
  | .select =>
    if S.storageConfigured then
      match a with
      | .videos ids =>
        if isQueryResult w.videoIds (fun v => w.videos.Free pid v ∧
            (w.videos.row v).any (isSelected pass w))
            (some S.rawVideoRetentionCleanupBatchSize) ids then
          some (.rawDeletes pass (loop pass w.now [] (w.videos.rows ids)), .lock [] ids [])
        else none
      | _ => none
    else some (.rawDeletes pass (.finished []), .skip)
  | .request (v, row) rest now deleted =>
    updateVideo w pid v (unlessDeleted fun r => { r with
        rawDeleteRequestedAt := some now
        rawDeleteFailedAt := none
        rawDeleteReason := some .retentionExpired }) [] [] fun _ =>
      .rawDeletes pass (.deleteObject (v, row) rest now deleted)
  | .deleteObject (v, row) rest now deleted =>
    some (.rawDeletes pass (if a.returns then .markDeleted (v, row) rest now deleted
        else .markFailed (v, row) rest now deleted),
      match row.storageKeyRaw with
      | some key => if a.applied then .deleteObject key else .skip
      | none => .skip)
  | .markFailed (v, _) rest now deleted =>
    updateVideo w pid v (unlessDeleted fun r => { r with
        rawDeleteFailedAt := some (recordedAt pass w now) })
      [] [(.videoRawObjectDeleteFailed, .video v)] fun _ =>
      .rawDeletes pass (loop pass now deleted rest)
  | .markDeleted (v, _) rest now deleted =>
    updateVideo w pid v (unlessDeleted fun r => { r with
        storageKeyRaw := none
        rawStorageDeletedAt := some (recordedAt pass w now)
        rawDeletedAt := some (recordedAt pass w now)
        rawDeleteFailedAt := none }) [] [(.videoRawObjectDeleted, .video v)] fun _ =>
      .rawDeletes pass (loop pass now (deleted ++ [v]) rest)
  | .finished _ => none

end RawDeletes

end NextBallUp
