import NextBallUp.Processes

/-!
# The CV pipeline

`runtime/cv_pipeline.py`: the chain of stages after the transcode, and the execution of one of
them.

## What is deliberately absent

Which model artifact a stage uses, and whether the plan of the team entitles it to one, is looked
up in tables that nothing here writes. The outcome of the lookup is an `Answer`.
-/

namespace NextBallUp

/-- `_NEXT_STAGE` -/
def ProcessingJobStage.next : ProcessingJobStage → Option ProcessingJobStage
  | .transcode => some .detection
  | .detection => some .tracking
  | .tracking => some .courtMapping
  | .courtMapping => some .events
  | .events => some .metrics
  | .metrics => none

/-- `_UPSTREAM_STAGE`; the stages that have one are `_CV_STAGES`. -/
def ProcessingJobStage.upstream : ProcessingJobStage → Option ProcessingJobStage
  | .transcode => none
  | .detection => some .transcode
  | .tracking => some .detection
  | .courtMapping => some .tracking
  | .events => some .courtMapping
  | .metrics => some .events

def ProcessingJobStage.value : ProcessingJobStage → String
  | .transcode => "transcode"
  | .detection => "detection"
  | .tracking => "tracking"
  | .courtMapping => "court_mapping"
  | .events => "events"
  | .metrics => "metrics"

/-- `queue_next_stage_if_enabled`: the job that a transaction inserts after a stage completes. -/
def queueNextStage (S : Settings) (w : World) (video : VideoId) (completed : ProcessingJobStage) :
    List (JobId × ProcessingJob) :=
  if S.cvPipelineEnabled then
    match completed.next with
    | none => []
    | some stage =>
      match w.jobs.row ⟨video, stage⟩ with
      | some _ => []
      | none => [(⟨video, stage⟩, .new w.now)]
  else []

theorem ProcessingJobStage.next_ne_transcode {s t : ProcessingJobStage} (h : s.next = some t) :
    t ≠ .transcode := by
  cases s <;> cases h <;> decide

theorem ProcessingJobStage.upstream_ne_none {s : ProcessingJobStage} (h : s ≠ .transcode) :
    s.upstream ≠ none := by
  cases s with
  | transcode => exact absurd rfl h
  | _ => simp [upstream]

/-- At most one job is inserted, of the next stage and where there is none. -/
theorem queueNextStage_cases (S : Settings) (w : World) (v : VideoId) (s : ProcessingJobStage) :
    queueNextStage S w v s = [] ∨ ∃ j : JobId, j.videoId = v ∧ s.next = some j.stage ∧
      w.jobs.row j = none ∧ queueNextStage S w v s = [(j, .new w.now)] := by
  unfold queueNextStage
  split
  · split
    · exact .inl rfl
    · next stage hs =>
      split
      · exact .inl rfl
      · next hn => exact .inr ⟨⟨v, stage⟩, rfl, hs, hn, rfl⟩
  · exact .inl rfl

theorem of_mem_queueNextStage {S : Settings} {w : World} {v : VideoId} {s : ProcessingJobStage}
    {e : JobId × ProcessingJob} (he : e ∈ queueNextStage S w v s) :
    e.1.stage ≠ .transcode ∧ w.jobs.row e.1 = none ∧ e.2 = .new w.now := by
  rcases queueNextStage_cases S w v s with hq | ⟨j, -, hs, hn, hq⟩
  · simp [hq] at he
  · obtain rfl : e = (j, .new w.now) := by simpa [hq] using he
    exact ⟨ProcessingJobStage.next_ne_transcode hs, hn, rfl⟩

/-- The audit rows of `queue_next_stage_if_enabled`. -/
def queuedAudits (jobs : List (JobId × ProcessingJob)) : List (AuditAction × Resource) :=
  jobs.map fun e => (.videoProcessingQueued, .job e.1)

namespace ExecuteCvStage

variable (S : Settings) (pid : Pid) (e : Execution) (w : World)

/-- The exception escapes the task, and Celery calls `CVStageTask.on_failure`. -/
def escape (code : ErrorCode) (message : String) : Proc :=
  .onFailure e ⟨false, code, message⟩ false .getJob

/-- `_stage_metadata` -/
def stageMetadata (stage : ProcessingJobStage) (contractOnly : Bool) : Metadata :=
  [(.stage, .stage stage), (.contractOnly, .bool contractOnly)]

def prerequisiteMissing : ErrorCode × String :=
  (.cvStagePrerequisiteMissing, "Browser-safe video artifact is required before CV stages run")

def step (a : Answer) : Pc → Turn
  | .loadJob =>
    match w.jobs.row e.job with
    | none => some (.done, .skip)
    | some _ =>
      if e.job.stage.upstream = none then
        some (.cvStage e (.failJob .processingStageUnknown
          ("Unexpected CV stage: " ++ e.job.stage.value)), .skip)
      else some (.cvStage e .claimJob, .skip)
  | .claimJob =>
    updateJob w pid e.job (claimJob e.taskId w.now) [] fun
      | none => .done
      | some _ => .cvStage e .auditStarted
  | .auditStarted =>
    some (.cvStage e (if S.cvPipelineEnabled then .loadVideo
        else .failJob .cvPipelineDisabled "CV pipeline is disabled for this deployment"),
      .commit { auditLogs := [(.videoProcessingStarted, .job e.job)] })
  | .loadVideo =>
    match w.videos.row e.job.videoId with
    | none => some (.cvStage e (.failJob prerequisiteMissing.1 prerequisiteMissing.2), .skip)
    | some video =>
      if video.status = .processed ∧ video.storageKeyMezzanine ≠ none then
        some (.cvStage e .loadUpstream, .skip)
      else some (.cvStage e (.failJob prerequisiteMissing.1 prerequisiteMissing.2), .skip)
  | .loadUpstream =>
    match e.job.stage.upstream with
    | none => some (escape e .internalError "", .commit {})
    | some upstream =>
      if (w.jobs.row ⟨e.job.videoId, upstream⟩).any fun r => r.status = .completed then
        some (.cvStage e .heartbeat25, .skip)
      else
        some (.cvStage e (.failJob .cvStagePrerequisiteMissing
          (upstream.value ++ " must complete before " ++ e.job.stage.value)), .skip)
  | .heartbeat25 =>
    updateJob w pid e.job (touchHeartbeat none 25 w.now) [] fun _ => .cvStage e .selectArtifact
  | .selectArtifact =>
    match a with
    | .ok => some (.cvStage e (.heartbeat75 false), .skip)
    | .fault => some (.cvStage e (.heartbeat75 true), .skip)
    | .raised _ code message => some (.cvStage e (.failJob code message), .skip)
    | _ => none
  | .heartbeat75 contractOnly =>
    updateJob w pid e.job (touchHeartbeat none 75 w.now) [] fun _ =>
      .cvStage e (.completeJob contractOnly)
  | .completeJob contractOnly =>
    let queued := queueNextStage S w e.job.videoId e.job.stage
    -- The new job refers to its video, which may be gone.
    if queued ≠ [] ∧ w.videos.row e.job.videoId = none then
      some (escape e .internalError "", .commit {})
    else
      let u := completeJob none (stageMetadata e.job.stage contractOnly) w.now
      w.jobs.locate pid e.job u.cond fun o =>
        (.done, .commit {
          jobs := (o.map fun r => (e.job, u.set r)).toList ++ queued
          auditLogs := (.videoProcessingCompleted, .job e.job) :: queuedAudits queued })
  | .failJob code message =>
    updateJob w pid e.job (failJob code message none w.now)
      [(.videoProcessingFailed, .job e.job)] fun _ => .done

end ExecuteCvStage

end NextBallUp
