import NextBallUp.CvPipeline

/-!
# The transcode task

`runtime/transcode.py` and the parts of `tasks.py` around it: one execution of `run_transcode`, the
handling of its errors, and the `on_failure` hooks of both kinds of task.

## What is deliberately absent

What the media tools do with the file is the environment's `Answer`, as is the text of an exception
that a library raises. A heartbeat whose update raises while the media tools run abandons them; an
upload that then still completes in its thread is the answer `faultApplied` of an earlier turn.
-/

namespace NextBallUp

namespace ExecuteTranscode

variable (S : Settings) (pid : Pid) (e : Execution) (w : World)

/-- The exception is caught, and `_handle_task_failure` takes over. -/
def raise (retryable : Bool) (code : ErrorCode) (message : String) : Turn :=
  some (.transcode e (.checkActive ⟨retryable, code, message⟩), .skip)

/-- The exception escapes the task, and Celery calls `TranscodeTask.on_failure`. -/
def escape (code : ErrorCode) (message : String) : Proc :=
  .onFailure e ⟨false, code, message⟩ true .getJob

/-- `touch_heartbeat` as the execution calls it. -/
def heartbeat (progressPercent : ℕ) (next : Pc) : Turn :=
  updateJob w pid e.job (touchHeartbeat (some e.taskId) progressPercent w.now) [] fun _ =>
    .transcode e next

/-- `_verify_storage`, once the storage has reported the object. -/
def verifyStorage (video : Video) (key : StorageKey) (head : Option StoredObject) :
    Except TaskError Verification :=
  match head with
  | none =>
    .error ⟨false, .processingObjectMissing, "Uploaded object was not found in storage"⟩
  | some o =>
    if o.contentLength ≠ video.fileSizeBytes then
      .error ⟨false, .processingSizeMismatch,
        "Uploaded object size does not match the declared file size"⟩
    else if video.checksumSha256 ≠ none ∧ o.checksumSha256 ≠ none ∧
        o.checksumSha256 ≠ video.checksumSha256 then
      .error ⟨false, .processingChecksumMismatch,
        "Uploaded object checksum does not match the recorded SHA-256 digest"⟩
    else .ok ⟨key, o.contentLength, video.checksumSha256.isSome⟩

/-- The `UPDATE videos` of `_materialize_outputs`. `video` is the row as it was loaded. -/
def materializeOutputs (video : Video) (artifact : Artifact) : Update Video where
  cond r := r.status = .processing
  set r := { r with
    storageKeyMezzanine := some artifact.mezzanineKey
    storageOutputSha256 := some artifact.outputSha256
    rawRetentionExpiresAt := video.rawRetentionExpiresAt.or
      (some (w.now + (((w.accountTeamLinks video.teamId).bind w.accounts.row).bind
        Plan.rawVideoRetentionDays).getD S.rawVideoRetentionDays * 86400)) }

/-- The `result_metadata` of a completed transcode. -/
def resultMetadata (verification : Verification) (artifact : Artifact) : Metadata :=
  [(.verification, .verification verification), (.outputs, .key artifact.mezzanineKey),
    (.metadataStripped, .bool true), (.outputSha256, .int artifact.outputSha256),
    (.outputSizeBytes, .int artifact.outputSizeBytes)]

/-- The `result_metadata` of a job that is released for a retry. -/
def retryMetadata (previous : Option Metadata) (err : TaskError) : Metadata :=
  let m := previous.getD []
  ((m.set .attempt (.int (m.getNat .attempt + 1))).set .lastError (.text err.message)).set
    .lastErrorCode (.code err.code)

def step (a : Answer) : Pc → Turn
  | .loadJob =>
    match w.jobs.row e.job with
    | none => some (.done, .skip)
    | some _ =>
      if e.job.stage = .transcode then some (.transcode e .claimJob, .skip)
      else
        some (escape e .processingJobTerminal ("Unexpected stage: " ++ e.job.stage.value), .skip)
  | .claimJob =>
    updateJob w pid e.job (claimJob e.taskId w.now) [] fun
      | none => .done
      | some _ => .transcode e .setProcessing
  | .setProcessing =>
    updateVideo w pid e.job.videoId (setVideoStatus .processing [.queued, .processing]) []
      [(.videoProcessingStarted, .job e.job)] fun _ => .transcode e .heartbeat10
  | .heartbeat10 => heartbeat pid e w 10 .loadVideo
  | .loadVideo =>
    match w.videos.row e.job.videoId with
    | none => raise e false .videoNotFound "Video row vanished during processing"
    | some video =>
      if S.storageConfigured then some (.transcode e (.verifyStorage video), .skip)
      else raise e false .storageNotConfigured "Object storage is not configured"
  | .verifyStorage video =>
    match video.storageKeyRaw with
    | none => raise e false .processingObjectMissing "Video has no storage key"
    | some key =>
      if a.returns then
        match verifyStorage video key (w.objects key) with
        | .error err => some (.transcode e (.checkActive err), .skip)
        | .ok verification => some (.transcode e (.heartbeat50 video verification), .skip)
      else raise e true .processingStorageFailure "Storage head_object failed"
  | .heartbeat50 video verification => heartbeat pid e w 50 (.download video verification)
  | .download video verification =>
    match a with
    | .timer => heartbeat pid e w 50 (.download video verification)
    | .ok =>
      match w.objects verification.storageKey with
      | none =>
        raise e true .processingStorageFailure
          "Failed to download uploaded object for transcoding"
      | some o =>
        if video.checksumSha256 ≠ none ∧ video.checksumSha256 ≠ some o.sha256 then
          raise e false .processingChecksumMismatch
            "Downloaded uploaded object SHA-256 does not match the recorded digest"
        else some (.transcode e (.transcode video verification), .skip)
    | _ =>
      raise e true .processingStorageFailure "Failed to download uploaded object for transcoding"
  | .transcode video verification =>
    match a with
    | .timer => heartbeat pid e w 50 (.transcode video verification)
    | .output sha256 size =>
      if size = 0 then
        raise e false .processingTranscodeFailed
          "Video transcoding produced an empty output artifact"
      else some (.transcode e (.uploadOutput video verification sha256 size), .skip)
    | .raised retryable code message => raise e retryable code message
    | _ => none
  | .uploadOutput video verification sha256 size =>
    if a = .timer then heartbeat pid e w 50 (.uploadOutput video verification sha256 size)
    else
      some (.transcode e (if a.returns then .headOutput video verification sha256
          else .checkActive ⟨true, .processingStorageFailure,
            "Failed to upload browser playback artifact"⟩),
        if a.applied then
          .putObject (storageKeyForMezzanine e.job.videoId) ⟨size, sha256, none, some sha256⟩
        else .skip)
  | .headOutput video verification sha256 =>
    if a = .timer then heartbeat pid e w 50 (.headOutput video verification sha256)
    else if a.returns then
      match w.objects (storageKeyForMezzanine e.job.videoId) with
      | none =>
        raise e true .processingStorageFailure
          "Browser playback artifact was not found after upload"
      | some o =>
        if o.contentLength = 0 then
          raise e true .processingStorageFailure "Browser playback artifact is empty in storage"
        else
          some (.transcode e (.lockJob video verification
            ⟨storageKeyForMezzanine e.job.videoId, sha256, o.contentLength⟩), .skip)
    else raise e true .processingStorageFailure "Failed to upload browser playback artifact"
  | .lockJob video verification artifact =>
    w.jobs.locate pid e.job (·.isActive (some e.taskId)) fun
      | none => (.transcode e (.deleteOutput artifact), .commit {})
      | some job =>
        (.transcode e (.materialize video verification artifact job), .lock [e.job] [] [])
  | .materialize video verification artifact _ =>
    updateVideo w pid e.job.videoId (materializeOutputs S w video artifact) [] [] fun
      | none => .transcode e (.deleteOutput artifact)
      | some _ => .transcode e (.auditOutput verification artifact)
  | .auditOutput verification artifact =>
    some (.transcode e (.heartbeat80 verification artifact),
      .commit { auditLogs := [(.videoOutputMaterialized, .video e.job.videoId)] })
  | .heartbeat80 verification artifact => heartbeat pid e w 80 (.completeJob verification artifact)
  | .completeJob verification artifact =>
    lockAndSetJob w pid e.job
      (completeJob (some e.taskId) (resultMetadata verification artifact) w.now) fun
      | none => .done
      | some (job, completed) => .transcode e (.setProcessed job completed)
  | .setProcessed _ completed =>
    let queued :=
      match w.videos.row e.job.videoId with
      | none => []
      | some _ => queueNextStage S w e.job.videoId .transcode
    updateVideo w pid e.job.videoId (setVideoStatus .processed [.processing])
      ((e.job, completed) :: queued)
      ((.videoProcessingCompleted, .job e.job) :: queuedAudits queued) fun _ => .done
  | .deleteOutput artifact =>
    some (.done, if a.applied then .deleteObject artifact.mezzanineKey else .skip)
  | .checkActive err =>
    match w.jobs.row e.job with
    | none => some (.done, .skip)
    | some job =>
      if job.isActive (some e.taskId) then
        some (.transcode e
          (if err.retryable then .releaseJob err job.resultMetadata else .failJob err), .skip)
      else some (.done, .skip)
  | .releaseJob err previous =>
    lockAndSetJob w pid e.job (releaseJobForRetry (retryMetadata previous err) w.now) fun o =>
      .transcode e (.setQueued err o)
  | .setQueued err job =>
    updateVideo w pid e.job.videoId (setVideoStatus .queued [.processing, .queued])
      (job.map fun r => (e.job, r.2)).toList [(.videoProcessingFailed, .job e.job)] fun _ =>
      .transcode e (.retry err)
  | .failJob err =>
    lockAndSetJob w pid e.job (failJob err.code err.message none w.now) fun o =>
      .transcode e (.setFailed o)
  | .setFailed job =>
    updateVideo w pid e.job.videoId (setVideoStatus .failed [.processing, .queued])
      (job.map fun r => (e.job, r.2)).toList [(.videoProcessingFailed, .job e.job)] fun _ => .done
  | .retry err =>
    match a with
    | .ok => some (.done, .retry ⟨e.taskId, e.job⟩)
    | .exhausted => some (escape e err.code err.code.value, .skip)
    | _ => none

/-- Where a statement that raises leads: inside the `try` block to the handler, elsewhere out of
the task. -/
def onError (message : String) : Pc → Proc
  | .heartbeat10 | .loadVideo | .verifyStorage .. | .heartbeat50 .. | .download .. | .transcode ..
  | .uploadOutput .. | .headOutput .. | .lockJob .. | .materialize .. | .auditOutput ..
  | .heartbeat80 .. | .deleteOutput .. =>
    .transcode e (.checkActive ⟨true, .internalError, message⟩)
  | .loadJob | .claimJob | .setProcessing | .completeJob .. | .setProcessed .. | .checkActive ..
  | .releaseJob .. | .setQueued .. | .failJob .. | .setFailed .. | .retry .. =>
    escape e .internalError message

end ExecuteTranscode

namespace TerminalFailure

variable (pid : Pid) (e : Execution) (err : TaskError) (failVideo : Bool) (w : World)

def step : Pc → Turn
  | .getJob =>
    match w.jobs.row e.job with
    | none => some (.done, .skip)
    | some _ => some (.onFailure e err failVideo .failJob, .skip)
  | .failJob =>
    lockAndSetJob w pid e.job (failJob err.code err.message none w.now) fun o =>
      .onFailure e err failVideo (.setFailed o)
  | .setFailed job =>
    if job.isSome ∧ failVideo then
      updateVideo w pid e.job.videoId (setVideoStatus .failed [])
        (job.map fun r => (e.job, r.2)).toList [(.videoProcessingFailed, .job e.job)] fun _ =>
        .done
    else
      some (.done, .commit {
        jobs := (job.map fun r => (e.job, r.2)).toList
        auditLogs := [(.videoProcessingFailed, .job e.job)] })

end TerminalFailure

end NextBallUp
