import NextBallUp.Rows

/-!
# Job transitions

`runtime/jobs.py`: the `UPDATE` statements by which a worker moves a processing job and its video,
each with the condition of its `WHERE` clause and the values it sets. Where these statements are
executed, and what is done with the row they return, is up to the callers.

## Main definitions

* `Update`: a conditional update of one row
* `claimJob`, `touchHeartbeat`, `completeJob`, `failJob`, `releaseJobForRetry`, `setVideoStatus`
* `ProcessingJob.flush`: what the ORM writes of a changed job
-/

namespace NextBallUp

/-- `UPDATE … SET … WHERE …` on the row under a given key. -/
structure Update (R : Type) where
  /-- The rest of the `WHERE` clause. -/
  cond : R → Bool
  /-- The row afterwards. -/
  set : R → R

/-- Atomically transition a job from PENDING to RUNNING while recording the Celery task id. -/
def claimJob (celeryTaskId : TaskId) (now : Time) : Update ProcessingJob where
  cond r := r.status = .pending
  set r := { r with
    status := .running
    celeryTaskId := some celeryTaskId
    startedAt := r.startedAt.or (some now)
    heartbeatAt := some now }

/-- The job is RUNNING, and under the given task id when there is one. -/
def ProcessingJob.isActive (r : ProcessingJob) (celeryTaskId : Option TaskId) : Bool :=
  r.status = .running ∧ (celeryTaskId = none ∨ r.celeryTaskId = celeryTaskId)

theorem ProcessingJob.isActive_some {r : ProcessingJob} {t : TaskId} :
    r.isActive (some t) ↔ r.status = .running ∧ r.celeryTaskId = some t := by
  simp [isActive]

/-- Bump `heartbeat_at` and `progress_percent` of a running job. -/
def touchHeartbeat (celeryTaskId : Option TaskId) (progressPercent : ℕ) (now : Time) :
    Update ProcessingJob where
  cond r := r.isActive celeryTaskId
  set r := { r with heartbeatAt := some now, progressPercent := progressPercent }

/-- Transition a RUNNING job to COMPLETED. -/
def completeJob (celeryTaskId : Option TaskId) (resultMetadata : Metadata) (now : Time) :
    Update ProcessingJob where
  cond r := r.isActive celeryTaskId
  set r := { r with
    status := .completed
    progressPercent := 100
    completedAt := some now
    errorMessage := none
    resultMetadata := some resultMetadata }

/-- `f"[{error_code}] {error_message}"[:2000]` -/
def failureText (code : ErrorCode) (message : String) : String :=
  String.ofList (("[" ++ code.value ++ "] " ++ message).toList.take 2000)

/-- Mark a job terminally FAILED. -/
def failJob (code : ErrorCode) (message : String) (resultMetadata : Option Metadata) (now : Time) :
    Update ProcessingJob where
  cond r := r.status = .pending ∨ r.status = .running
  set r := { r with
    status := .failed
    completedAt := some now
    errorMessage := some (failureText code message)
    resultMetadata := some ((resultMetadata.getD []).set .errorCode (.code code)) }

/-- Return a RUNNING job to PENDING for a scheduled retry. The task id is preserved, so that the
dispatcher does not mistake the row for a never-enqueued job. -/
def releaseJobForRetry (resultMetadata : Metadata) (now : Time) : Update ProcessingJob where
  cond r := r.status = .running
  set r := { r with
    status := .pending
    progressPercent := 0
    errorMessage := none
    resultMetadata := some resultMetadata
    heartbeatAt := some now }

/-- One row is completed to the other, under the given task id. -/
def IsCompletion (celeryTaskId : Option TaskId) (r r' : ProcessingJob) : Prop :=
  ∃ resultMetadata now, (completeJob celeryTaskId resultMetadata now).cond r ∧
    r' = (completeJob celeryTaskId resultMetadata now).set r

/-- One row is failed to the other. -/
def IsFailure (r r' : ProcessingJob) : Prop :=
  ∃ code message resultMetadata now, (failJob code message resultMetadata now).cond r ∧
    r' = (failJob code message resultMetadata now).set r

/-- One row is released to the other. -/
def IsRelease (r r' : ProcessingJob) : Prop :=
  ∃ resultMetadata now, (releaseJobForRetry resultMetadata now).cond r ∧
    r' = (releaseJobForRetry resultMetadata now).set r

theorem IsCompletion.running {taskId : Option TaskId} {r r' : ProcessingJob}
    (h : IsCompletion taskId r r') : r.status = .running := by
  obtain ⟨_, _, hc, -⟩ := h
  simp only [completeJob, ProcessingJob.isActive, decide_eq_true_eq] at hc
  exact hc.1

theorem IsCompletion.completed {taskId : Option TaskId} {r r' : ProcessingJob}
    (h : IsCompletion taskId r r') : r'.status = .completed := by
  obtain ⟨_, _, -, rfl⟩ := h
  rfl

theorem IsFailure.open {r r' : ProcessingJob} (h : IsFailure r r') :
    r.status = .pending ∨ r.status = .running := by
  obtain ⟨_, _, _, _, hc, -⟩ := h
  simpa [failJob] using hc

theorem IsFailure.failed {r r' : ProcessingJob} (h : IsFailure r r') : r'.status = .failed := by
  obtain ⟨_, _, _, _, -, rfl⟩ := h
  rfl

theorem IsRelease.running {r r' : ProcessingJob} (h : IsRelease r r') : r.status = .running := by
  obtain ⟨_, _, hc, -⟩ := h
  simpa [releaseJobForRetry] using hc

theorem IsRelease.pending {r r' : ProcessingJob} (h : IsRelease r r') : r'.status = .pending := by
  obtain ⟨_, _, -, rfl⟩ := h
  rfl

/-- Transition a video's status. `allowedFrom` guards against out-of-order updates; the empty list
is `None`, which allows every status. -/
def setVideoStatus (newStatus : VideoStatus) (allowedFrom : List VideoStatus) : Update Video where
  cond r := allowedFrom = [] ∨ r.status ∈ allowedFrom
  set r := { r with status := newStatus }

/-- What the ORM writes of a job that a request has loaded and changed: the attributes that differ
from the loaded ones. -/
def ProcessingJob.flush (loaded new row : ProcessingJob) : ProcessingJob where
  status := if new.status = loaded.status then row.status else new.status
  progressPercent :=
    if new.progressPercent = loaded.progressPercent then row.progressPercent
    else new.progressPercent
  celeryTaskId :=
    if new.celeryTaskId = loaded.celeryTaskId then row.celeryTaskId else new.celeryTaskId
  createdAt := row.createdAt
  startedAt := if new.startedAt = loaded.startedAt then row.startedAt else new.startedAt
  completedAt := if new.completedAt = loaded.completedAt then row.completedAt else new.completedAt
  heartbeatAt := if new.heartbeatAt = loaded.heartbeatAt then row.heartbeatAt else new.heartbeatAt
  errorMessage :=
    if new.errorMessage = loaded.errorMessage then row.errorMessage else new.errorMessage
  resultMetadata :=
    if new.resultMetadata = loaded.resultMetadata then row.resultMetadata else new.resultMetadata

end NextBallUp
