import NextBallUp.Rows

/-!
# Data of the demo preview

What the services keep about the demo preview of one video: the columns of its row, the job for
its candidate tags, and the state file that lies beside the artifact.

## What is deliberately absent

The messages in the state file, which are only shown, and the candidate tags themselves. The
other columns of a video do not change here.

## Main definitions

* `Settings`: the settings that the preview is governed by
* `Video`, `EventsJob`: the columns, and the job of the stage EVENTS
* `Video.flush`: what the flush of a row object writes
* `DemoPreviewState`, `resolve`, `Mark`: the state file, how it is read and repaired, and how it is
  written
-/

namespace NextBallUp.Preview

/-! ### Settings -/

inductive AppEnv
  | development | test | staging | production
  deriving DecidableEq, Repr

/-- The settings, with the bounds that they are validated against. -/
structure Settings where
  appEnv : AppEnv
  cvDemoPreviewEnabled : Bool
  cvAlphaDetectorPreviewEnabled : Bool
  cvAlphaCandidateTagsEnabled : Bool
  cvDemoTimeoutSeconds : ℕ
  cvAlphaCandidateTimeoutSeconds : ℕ
  workerJobRetryBackoffSeconds : ℕ
  cvDemoTimeoutSeconds_bounds : 30 ≤ cvDemoTimeoutSeconds ∧ cvDemoTimeoutSeconds ≤ 7200
  cvAlphaCandidateTimeoutSeconds_bounds :
    30 ≤ cvAlphaCandidateTimeoutSeconds ∧ cvAlphaCandidateTimeoutSeconds ≤ 21600

namespace Settings

/-- The defaults of `nextballup_core.settings`, but for the switches. -/
def withSwitches (appEnv : AppEnv) (cvDemoPreviewEnabled cvAlphaDetectorPreviewEnabled
    cvAlphaCandidateTagsEnabled : Bool) : Settings where
  appEnv := appEnv
  cvDemoPreviewEnabled := cvDemoPreviewEnabled
  cvAlphaDetectorPreviewEnabled := cvAlphaDetectorPreviewEnabled
  cvAlphaCandidateTagsEnabled := cvAlphaCandidateTagsEnabled
  cvDemoTimeoutSeconds := 1800
  cvAlphaCandidateTimeoutSeconds := 7200
  workerJobRetryBackoffSeconds := 30
  cvDemoTimeoutSeconds_bounds := by decide
  cvAlphaCandidateTimeoutSeconds_bounds := by decide

/-- An alpha staging service with candidate tags, whose worker stores the artifact. -/
def alpha : Settings := withSwitches .staging false true true

/-- A development environment, in which the API and the worker share their files. -/
def development : Settings := withSwitches .development true false false

variable (S : Settings)

/-- `alpha_detector_preview_enabled()` -/
def alphaDetectorPreviewEnabled : Bool :=
  S.cvAlphaDetectorPreviewEnabled && S.appEnv ≠ .production

/-- `local_demo_preview_enabled()` -/
def localDemoPreviewEnabled : Bool :=
  S.cvDemoPreviewEnabled && (S.appEnv = .development || S.appEnv = .test) ||
    S.alphaDetectorPreviewEnabled

/-- `alpha_candidate_tags_enabled()` -/
def alphaCandidateTagsEnabled : Bool :=
  S.cvAlphaCandidateTagsEnabled && S.alphaDetectorPreviewEnabled

/-- The configuration in which the API shares no files with the worker. -/
def isStorageBacked : Bool := S.alphaDetectorPreviewEnabled && !S.cvDemoPreviewEnabled

/-- The seconds between two attempts of `run_demo_preview`. -/
def retryCountdown : ℕ := max 5 S.workerJobRetryBackoffSeconds

/-- After how many seconds `acquire_demo_preview_queue_lock` takes a lock for stale. -/
def queueLockStaleAfterSeconds : ℕ := max 15 (S.cvDemoTimeoutSeconds + 60)

/-- How often `run_demo_preview` is retried. -/
def retryLimit : ℕ :=
  max 1 ((S.cvDemoTimeoutSeconds + 60 + S.retryCountdown - 1) / S.retryCountdown)

end Settings

/-! ### Rows -/

/-- The values of `demo_preview_status`. -/
inductive DemoPreviewStatus
  | idle | queued | running | completed | failed
  deriving DecidableEq, Repr

/-- `in {"queued", "running"}` -/
def DemoPreviewStatus.isActive (s : DemoPreviewStatus) : Bool := s = .queued ∨ s = .running

/-- The row of the video. -/
structure Video where
  id : VideoId
  status : VideoStatus
  storageKeyMezzanine : Option StorageKey
  demoPreviewStatus : DemoPreviewStatus
  demoPreviewStorageKey : Option StorageKey
  demoPreviewRequestedAt : Option Time
  demoPreviewStartedAt : Option Time
  demoPreviewGeneratedAt : Option Time
  demoPreviewTaskId : Option TaskId
  demoPreviewErrorMessage : Option String
  deriving DecidableEq

def storageKeyForDemoPreview (videoId : VideoId) : StorageKey := .demoPreview videoId

/-- Why no preview can be generated for the video. -/
def Video.rejection (v : Video) : Option String :=
  if v.status ≠ .processed then
    some "Video must finish processing before a demo preview can be generated"
  else if v.storageKeyMezzanine = none then
    some "Processed video is missing its mezzanine artifact"
  else none

/-- The result metadata of the job for the candidate tags. -/
inductive TagsMetadata
  | created
  | failed (errorMessage : String)
  | completed (events : ℕ)
  deriving DecidableEq, Repr

/-- The job of the stage EVENTS, as the preview writes it. -/
structure EventsJob where
  status : ProcessingJobStatus
  progressPercent : ℕ
  celeryTaskId : TaskId
  startedAt : Time
  heartbeatAt : Time
  completedAt : Option Time
  errorMessage : Option String
  resultMetadata : TagsMetadata
  deriving DecidableEq

/-- A slice from the beginning. -/
def truncate (n : ℕ) (text : String) : String := String.ofList (text.toList.take n)

/-- What a flush makes of a column: it is written if the attribute has changed since it was
loaded. -/
def flushColumn {α : Type} [DecidableEq α] (loaded current stored : α) : α :=
  if current = loaded then stored else current

/-- What the `UPDATE` for a row object makes of the stored row. -/
def Video.flush (loaded current stored : Video) : Video where
  id := stored.id
  status := stored.status
  storageKeyMezzanine := stored.storageKeyMezzanine
  demoPreviewStatus := flushColumn loaded.demoPreviewStatus current.demoPreviewStatus
    stored.demoPreviewStatus
  demoPreviewStorageKey := flushColumn loaded.demoPreviewStorageKey current.demoPreviewStorageKey
    stored.demoPreviewStorageKey
  demoPreviewRequestedAt := flushColumn loaded.demoPreviewRequestedAt
    current.demoPreviewRequestedAt stored.demoPreviewRequestedAt
  demoPreviewStartedAt := flushColumn loaded.demoPreviewStartedAt current.demoPreviewStartedAt
    stored.demoPreviewStartedAt
  demoPreviewGeneratedAt := flushColumn loaded.demoPreviewGeneratedAt
    current.demoPreviewGeneratedAt stored.demoPreviewGeneratedAt
  demoPreviewTaskId := flushColumn loaded.demoPreviewTaskId current.demoPreviewTaskId
    stored.demoPreviewTaskId
  demoPreviewErrorMessage := flushColumn loaded.demoPreviewErrorMessage
    current.demoPreviewErrorMessage stored.demoPreviewErrorMessage

section Flush

variable {α : Type} [DecidableEq α] {loaded current stored : α}

theorem flushColumn_of_ne (h : current ≠ loaded) : flushColumn loaded current stored = current :=
  if_neg h

theorem flushColumn_eq_or (loaded current stored : α) :
    flushColumn loaded current stored = stored ∨ flushColumn loaded current stored = current :=
  ite_eq_or_eq ..

end Flush

/-! ### The state file -/

structure DemoPreviewState where
  status : DemoPreviewStatus
  requestedAt : Option Time := none
  startedAt : Option Time := none
  generatedAt : Option Time := none
  taskId : Option TaskId := none
  deriving DecidableEq

/-- `_state_is_stale` -/
def DemoPreviewState.isStale (S : Settings) (now : Time) (s : DemoPreviewState) : Bool :=
  s.status.isActive && match s.startedAt.or s.requestedAt with
    | none => true
    | some reference => S.cvDemoTimeoutSeconds + 60 < now - reference

/-- `resolve_demo_preview_state`, given the artifact and the state that it has read: what it
returns, and the states that it writes on the way. -/
def resolve (S : Settings) (now : Time) (artifact : Option Time)
    (read : Option DemoPreviewState) : DemoPreviewState × List DemoPreviewState :=
  if S.localDemoPreviewEnabled = false then ({ status := .idle }, [])
  else match read, artifact with
  | none, none => ({ status := .idle }, [])
  | none, some generatedAt =>
    let completed : DemoPreviewState := { status := .completed, generatedAt := some generatedAt }
    (completed, [completed])
  | some read, artifact =>
    let stale : DemoPreviewState := { read with status := .failed }
    let (state, writes) := if read.isStale S now then (stale, [stale]) else (read, [])
    match state.status, artifact with
    | .completed, none =>
      let missing := { state with status := .failed, generatedAt := none }
      (missing, writes ++ [missing])
    | .completed, some generatedAt =>
      if state.generatedAt ≠ some generatedAt then
        let updated := { state with generatedAt := some generatedAt }
        (updated, writes ++ [updated])
      else (state, writes)
    | .failed, some generatedAt =>
      let restored := { state with status := .completed, generatedAt := some generatedAt }
      (restored, writes ++ [restored])
    | _, some generatedAt => ({ state with generatedAt := some generatedAt }, writes)
    | _, none => (state, writes)

/-- `mark_demo_preview_running`, `…_queued`, `…_failed` and `…_completed` -/
inductive Mark
  | running (task : TaskId)
  | queued (task : Option TaskId) (generatedAt requestedAt : Option Time)
  | failed (task : Option TaskId)
  | completed (task : Option TaskId) (generatedAt : Time)
  deriving DecidableEq

/-- The state that is written over the one that has been resolved. -/
def Mark.state (now : Time) (current : DemoPreviewState) : Mark → DemoPreviewState
  | .running task =>
    { status := .running
      requestedAt := current.requestedAt.or (some now)
      startedAt := some now
      generatedAt := current.generatedAt
      taskId := some task }
  | .queued task generatedAt requestedAt =>
    { status := .queued
      requestedAt := requestedAt.or (current.requestedAt.or (some now))
      startedAt := none
      generatedAt := generatedAt.or current.generatedAt
      taskId := task.or current.taskId }
  | .failed task =>
    { status := .failed
      requestedAt := current.requestedAt
      startedAt := current.startedAt
      generatedAt := current.generatedAt
      taskId := task.or current.taskId }
  | .completed task generatedAt =>
    { status := .completed
      requestedAt := current.requestedAt
      startedAt := current.startedAt.or (some now)
      generatedAt := some generatedAt
      taskId := task.or current.taskId }

end NextBallUp.Preview
