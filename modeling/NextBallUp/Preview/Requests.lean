import NextBallUp.Lib.Interleaving
import NextBallUp.Lib.LockFiles
import NextBallUp.Preview.Rows

/-!
# Demo previews

`create_demo_preview` and `cancel_demo_preview`, and the executions of `run_demo_preview` with the
hook `DemoPreviewTask.on_failure`, all for one video. One turn is one SQL statement, one access to a
file, or one message.

An `UPDATE` locks the row until its transaction ends, and what it writes does not depend on what it
finds there. So it is one turn together with the `COMMIT`. With `task_acks_late` a message is
acknowledged when the task has returned, in a turn of its own after the last commit. With
`task_reject_on_worker_lost` it comes back if the worker is killed before that turn.

## What is deliberately absent

The video is not deleted. Rate limits, permissions and the availability of the services are up to
the environment, and so are the locks that an execution takes while it renders. Accesses to files
do not fail, and requests are not killed. Executions may be, and their message is delivered again.

## Main definitions

* `World`, `Effect`: the row, the broker and the files, and what a turn does to them
* `CreateDemoPreview.step`, `CancelDemoPreview.step`, `RunDemoPreview.step`: the processes
* `system`: the machine
-/

namespace NextBallUp.Preview

/-- A message for `run_demo_preview`, and how often it has been retried. -/
structure Message where
  task : TaskId
  retries : ℕ
  deriving DecidableEq

/-- The files beside the artifact. -/
structure Files where
  state : Option DemoPreviewState
  /-- When the artifact was written. -/
  artifact : Option Time
  queueLock : Directory Unit Pid

/-- Everything that the processes share. -/
structure World where
  video : Video
  eventsJob : Option EventsJob
  /-- The messages that are to be delivered, now or for a retry. -/
  queue : List Message
  /-- The messages that have been delivered and are not acknowledged. -/
  unacked : List (Pid × Message)
  files : Files
  /-- The tasks whose requests have been committed. No process reads it. -/
  requested : List TaskId
  /-- The tasks of which an execution has committed its last write. No process reads it. -/
  ended : List TaskId
  /-- The id of the next task. -/
  nextTask : TaskId
  now : Time

/-- A transaction that writes. -/
structure Tx where
  /-- The row object as it was loaded, and as it is now. -/
  loaded : Video
  current : Video
  events : Option EventsJob → Option EventsJob := id
  requested : Option TaskId := none
  ended : Option TaskId := none

/-- What one turn does to the world. -/
inductive Effect
  | skip
  | files (files : Files)
  | send
  | deliver (m : Message)
  | ack
  /-- The message comes back into the queue, for a retry or because the execution was killed. -/
  | requeue (m : Message)
  | commit (tx : Tx)
  | tick (seconds : ℕ)

namespace World

def ack (w : World) (pid : Pid) : World :=
  { w with unacked := w.unacked.filter fun d => d.1 ≠ pid }

def commit (w : World) (tx : Tx) : World :=
  { w with
    video := tx.loaded.flush tx.current w.video
    eventsJob := tx.events w.eventsJob
    requested := tx.requested.toList ++ w.requested
    ended := tx.ended.toList ++ w.ended }

/-- What an effect of process `pid` makes of the world. -/
def apply (w : World) (pid : Pid) : Effect → World
  | .skip => w
  | .files files => { w with files := files }
  | .send => { w with queue := w.queue ++ [⟨w.nextTask, 0⟩], nextTask := w.nextTask + 1 }
  | .deliver m => { w with queue := w.queue.erase m, unacked := (pid, m) :: w.unacked }
  | .ack => w.ack pid
  | .requeue m => { w.ack pid with queue := w.queue ++ [m] }
  | .commit tx => w.commit tx
  | .tick seconds => { w with now := w.now + seconds }

end World

/-! ### The state file

A point is named after what comes next. -/

/-- `resolve_demo_preview_state` -/
inductive Resolve
  | readArtifact
  | readState (artifact : Option Time)
  /-- It writes `first` and the rest, and returns `state`. -/
  | repair (state first : DemoPreviewState) (rest : List DemoPreviewState)

inductive Resolve.Next
  | more (r : Resolve)
  | resolved (state : DemoPreviewState)

def Resolve.next (state : DemoPreviewState) : List DemoPreviewState → Next
  | [] => .resolved state
  | first :: rest => .more (.repair state first rest)

def Resolve.step (S : Settings) (now : Time) (files : Files) : Resolve → Next × Files
  | .readArtifact => (.more (.readState files.artifact), files)
  | .readState artifact =>
    let resolved := resolve S now artifact files.state
    (next resolved.1 resolved.2, files)
  | .repair state first rest => (next state rest, { files with state := some first })

/-- A `mark_demo_preview_…` -/
inductive Marking
  | resolve (r : Resolve)
  | write (current : DemoPreviewState)

def Marking.start : Marking := .resolve .readArtifact

inductive Marking.Next
  | more (pc : Marking)
  | marked (state : DemoPreviewState)

def Marking.step (S : Settings) (now : Time) (files : Files) (mark : Mark) :
    Marking → Next × Files
  | .resolve r =>
    match r.step S now files with
    | (.more r, files) => (.more (.resolve r), files)
    | (.resolved current, files) => (.more (.write current), files)
  | .write current =>
    let state := mark.state now current
    (.marked state, { files with state := some state })

/-! ### Program points -/

/-- What became of the candidate tags. -/
inductive CandidateTags
  /-- There are none. -/
  | absent
  | failed (errorMessage : String)
  | imported (events : ℕ)
  deriving DecidableEq

/-- What the environment decides in a turn. -/
inductive Answer
  | ok
  /-- What is called raises. -/
  | raises (message : String)
  /-- The database statement raises. -/
  | error (message : String)
  /-- The worker is killed. -/
  | lost
  /-- Another preview runs on the machine. -/
  | machineBusy
  /-- A preview of the video is being generated. -/
  | inProgress
  | generated (generatedAt : Time) (tags : CandidateTags)
  | deliver (m : Message)
  | seconds (n : ℕ)
  deriving DecidableEq

/-- A request that has found the row neither queued nor running, up to the message. -/
inductive CreateDemoPreview.Asking
  | acquire (deadline : Time) (pc : Acquire)
  | readState (r : Resolve)
  | readArtifact
  | markQueued (artifact : Option Time) (requestedAt : Time) (pc : Marking)
  /-- In the local configuration the artifact and the state that was written are known. -/
  | send (queued : Option (Option Time × DemoPreviewState))

/-- A request that has sent the message of a task. -/
inductive CreateDemoPreview.Recording
  | markQueued (mark : Mark) (pc : Marking)
  | release
  | commit

/-- A request that enqueues nothing. -/
inductive CreateDemoPreview.Leaving
  | resolveState (r : Resolve)
  | mark (mark : Mark) (pc : Marking)
  | release

inductive CreateDemoPreview.Pc
  | load
  | decide (video : Video)
  | asking (video : Video) (pc : Asking)
  | recording (video : Video) (task : TaskId) (pc : Recording)
  | leaving (pc : Leaving)

inductive CancelDemoPreview.Pc
  | load
  | commit (video : Video)

/-- What an execution writes to the row. -/
inductive RunDemoPreview.Write
  | running
  | queued
  | failed (errorMessage : String)
  | completed (storageKey : StorageKey) (generatedAt : Time) (tags : CandidateTags)

/-- An execution of `run_demo_preview`. `hook` says that it is `on_failure` that runs. -/
inductive RunDemoPreview.Pc
  | start
  | load
  | render (video : Video)
  | generate (video : Video)
  | upload (video : Video) (generatedAt : Time) (tags : CandidateTags)
  | mark (mark : Mark) (pc : Marking) (next : Pc)
  | commit (write : Write) (video : Video) (hook : Bool)
  | resolveState (r : Resolve)
  | retry
  | finalize (errorMessage : String) (hook : Bool)
  | finish

inductive Proc
  | create (pc : CreateDemoPreview.Pc)
  | cancel (pc : CancelDemoPreview.Pc)
  | execute (m : Message) (pc : RunDemoPreview.Pc)
  /-- A worker that waits for a message. -/
  | idle
  | clock
  | done

/-- Where a turn takes the process, and what it does; `none` if it cannot be taken. -/
abbrev Turn := Option (Proc × Effect)

variable (S : Settings) (pid : Pid) (w : World) (a : Answer)

/-- One turn of `resolve_demo_preview_state`, and what comes after it. -/
def resolveTurn (here : Resolve → Proc) (after : DemoPreviewState → Proc) (r : Resolve) : Turn :=
  match r.step S w.now w.files with
  | (.more r, files) => some (here r, .files files)
  | (.resolved state, files) => some (after state, .files files)

/-- One turn of a `mark_demo_preview_…`, and what comes after it. -/
def markTurn (mark : Mark) (here : Marking → Proc) (after : DemoPreviewState → Proc)
    (pc : Marking) : Turn :=
  match pc.step S w.now w.files mark with
  | (.more pc, files) => some (here pc, .files files)
  | (.marked state, files) => some (after state, .files files)

/-- `release_demo_preview_lock` -/
def World.releaseQueueLock : Files := { w.files with queueLock := w.files.queueLock.unlink () }

/-! ### Requests -/

namespace CreateDemoPreview

/-- What the request assigns once the message has been sent. -/
def assign (now : Time) (task : TaskId) (video : Video) : Video :=
  { video with
    demoPreviewStatus := .queued
    demoPreviewRequestedAt := some now
    demoPreviewStartedAt := none
    demoPreviewTaskId := some task
    demoPreviewErrorMessage := none }

/-- The commit of a request that has sent the message of a task. -/
def tx (now : Time) (task : TaskId) (video : Video) : Tx where
  loaded := video
  current := assign now task video
  requested := some task

def Asking.step (video : Video) : Asking → Turn
  | .acquire deadline pc =>
    let t := pc.step w.files.queueLock pid () w.now S.queueLockStaleAfterSeconds
    some (match t.1 with
      | .more pc => .create (.asking video (.acquire deadline pc))
      | .acquired => .create (.asking video (.readState .readArtifact))
      | .conflict =>
        if deadline ≤ w.now then .create (.leaving (.resolveState .readArtifact))
        else .create (.asking video (.acquire deadline (.create 1))),
      .files { w.files with queueLock := t.2 })
  | .readState r =>
    resolveTurn S w (fun r => .create (.asking video (.readState r))) (fun state =>
      if state.status.isActive then .create (.leaving .release)
      else .create (.asking video .readArtifact)) r
  | .readArtifact =>
    some (.create (.asking video (.markQueued w.files.artifact w.now .start)), .skip)
  | .markQueued artifact requestedAt pc =>
    markTurn S w (.queued none artifact (some requestedAt))
      (fun pc => .create (.asking video (.markQueued artifact requestedAt pc)))
      (fun state => .create (.asking video (.send (some (artifact, state))))) pc
  | .send queued =>
    match a, queued with
    | .raises _, none => some (.done, .skip)
    | .raises _, some (none, state) =>
      some (.create (.leaving (.mark (.failed state.taskId) .start)), .skip)
    | .raises _, some (some generatedAt, state) =>
      some (.create (.leaving (.mark (.completed state.taskId generatedAt) .start)), .skip)
    | _, none => some (.create (.recording video w.nextTask .commit), .send)
    | _, some (artifact, state) =>
      some (.create (.recording video w.nextTask
        (.markQueued (.queued (some w.nextTask) artifact state.requestedAt) .start)), .send)

def Recording.step (video : Video) (task : TaskId) : Recording → Turn
  | .markQueued change pc =>
    markTurn S w change (fun pc => .create (.recording video task (.markQueued change pc)))
      (fun _ => .create (.recording video task .release)) pc
  | .release => some (.create (.recording video task .commit), .files w.releaseQueueLock)
  | .commit =>
    match a with
    | .error _ => some (.done, .skip)
    | _ => some (.done, .commit (tx w.now task video))

def Leaving.step : Leaving → Turn
  | .resolveState r =>
    resolveTurn S w (fun r => .create (.leaving (.resolveState r))) (fun _ => .done) r
  | .mark change pc =>
    markTurn S w change (fun pc => .create (.leaving (.mark change pc)))
      (fun _ => .create (.leaving .release)) pc
  | .release => some (.done, .files w.releaseQueueLock)

/-- `create_demo_preview` -/
def step : Pc → Turn
  | .load =>
    match a with
    | .error _ => some (.done, .skip)
    | _ => some (.create (.decide w.video), .skip)
  | .decide video =>
    match a with
    | .raises _ => some (.done, .skip)
    | _ =>
      if S.localDemoPreviewEnabled = false ∨ video.rejection ≠ none then some (.done, .skip)
      else if video.demoPreviewStatus.isActive then some (.done, .skip)
      else if S.isStorageBacked then some (.create (.asking video (.send none)), .skip)
      else some (.create (.asking video (.acquire (w.now + 1) (.create 1))), .skip)
  | .asking video pc => pc.step S pid w a video
  | .recording video task pc => pc.step S w a video task
  | .leaving pc => pc.step S w

end CreateDemoPreview

namespace CancelDemoPreview

/-- What the request assigns. -/
def assign (now : Time) (video : Video) : Video :=
  { video with
    demoPreviewStatus := .failed
    demoPreviewErrorMessage := some
      "Alpha detector preview was cancelled. Fix the local worker setup, then generate again."
    demoPreviewTaskId := none
    demoPreviewStartedAt := none
    demoPreviewRequestedAt := some now }

def tx (now : Time) (video : Video) : Tx where
  loaded := video
  current := assign now video

/-- `cancel_demo_preview` -/
def step : Pc → Turn
  | .load =>
    match a with
    | .error _ | .raises _ => some (.done, .skip)
    | _ =>
      if w.video.demoPreviewStatus.isActive then some (.cancel (.commit w.video), .skip)
      else some (.done, .skip)
  | .commit video =>
    match a with
    | .error _ => some (.done, .skip)
    | _ => some (.done, .commit (tx w.now video))

end CancelDemoPreview

/-! ### Executions -/

namespace RunDemoPreview

/-- `_sync_alpha_candidate_tags`: what becomes of the job. -/
def syncAlphaCandidateTags (now : Time) (task : TaskId) (job : Option EventsJob) :
    CandidateTags → Option EventsJob
  | .absent => job
  | .failed errorMessage =>
    some
      { status := .failed
        progressPercent := 100
        celeryTaskId := task
        startedAt := now
        heartbeatAt := now
        completedAt := some now
        errorMessage := some (truncate 2000 ("[DEMO_PREVIEW_FAILED] " ++ errorMessage))
        resultMetadata := .failed errorMessage }
  | .imported events =>
    some
      { status := .completed
        progressPercent := 100
        celeryTaskId := task
        startedAt := now
        heartbeatAt := now
        completedAt := some now
        errorMessage := none
        resultMetadata := .completed events }

namespace Write

/-- What an execution of the task assigns. -/
def assign (now : Time) (task : TaskId) (video : Video) : Write → Video
  | .running =>
    { video with
      demoPreviewStatus := .running
      demoPreviewStartedAt := some now
      demoPreviewTaskId := some task
      demoPreviewErrorMessage := none }
  | .queued => { video with demoPreviewStatus := .queued, demoPreviewTaskId := some task }
  | .failed errorMessage =>
    { video with
      demoPreviewStatus := .failed
      demoPreviewTaskId := some task
      demoPreviewErrorMessage := some (truncate 1000 errorMessage) }
  | .completed storageKey generatedAt _ =>
    { video with
      demoPreviewStatus := .completed
      demoPreviewStorageKey := some storageKey
      demoPreviewGeneratedAt := some generatedAt
      demoPreviewTaskId := some task
      demoPreviewErrorMessage := none }

/-- What is written to the job. -/
def events (now : Time) (task : TaskId) : Write → Option EventsJob → Option EventsJob
  | .completed _ _ tags, job => syncAlphaCandidateTags now task job tags
  | _, job => job

/-- Only the acknowledgement comes after it. -/
def isLast : Write → Bool
  | .running | .queued => false
  | .failed _ | .completed .. => true

def tx (now : Time) (task : TaskId) (video : Video) (write : Write) : Tx where
  loaded := video
  current := write.assign now task video
  events := write.events now task
  ended := if write.isLast then some task else none

end Write

/-- The message that `on_failure` stores. -/
def hookMessage (message : String) : String :=
  if message = "" then "Local demo preview worker failed unexpectedly" else truncate 2000 message

/-- An exception that the execution handles itself. -/
def fail (m : Message) (video : Video) (message : String) : Pc :=
  .mark (.failed (some m.task)) .start (.commit (.failed message) video false)

/-- An exception that it does not handle. -/
def raised (m : Message) (hook : Bool) (message : String) : Turn :=
  if hook then some (.done, .ack)
  else some (.execute m (.finalize (hookMessage message) true), .skip)

/-- `run_demo_preview`, with `execute_demo_preview` and `finalize_demo_preview_failure` -/
def step (m : Message) : Pc → Turn
  | .start =>
    match a with
    -- There is no object storage.
    | .raises _ => some (.execute m (.mark (.failed (some m.task)) .start .finish), .skip)
    | _ => some (.execute m .load, .skip)
  | .load =>
    match a with
    | .error message => raised m false message
    | _ => some (.execute m (.render w.video), .skip)
  | .render video =>
    match a, video.rejection with
    | .raises message, _ | _, some message => some (.execute m (fail m video message), .skip)
    | .machineBusy, none =>
      some (.execute m (.mark (.queued (some m.task) none none) .start
        (.commit .queued video false)), .skip)
    | .inProgress, none => some (.execute m (.resolveState .readArtifact), .skip)
    -- Both locks are held: `on_started` comes next.
    | _, none =>
      some (.execute m (.mark (.running m.task) .start (.commit .running video false)), .skip)
  | .generate video =>
    match a with
    | .raises message => some (.execute m (fail m video message), .skip)
    | .generated generatedAt tags =>
      some (.execute m (.upload video generatedAt
        (if S.alphaCandidateTagsEnabled then tags else .absent)),
        .files { w.files with artifact := some generatedAt })
    | _ => none
  | .upload video generatedAt tags =>
    match a with
    | .raises message => some (.execute m (fail m video message), .skip)
    | _ =>
      some (.execute m (.mark (.completed (some m.task) generatedAt) .start
        (.commit (.completed (storageKeyForDemoPreview video.id) generatedAt tags) video false)),
        .skip)
  | .mark change pc next =>
    markTurn S w change (fun pc => .execute m (.mark change pc next)) (fun _ => .execute m next) pc
  | .commit write video hook =>
    match a, write with
    -- `on_started` has raised, but the session is of no use until it is rolled back.
    | .error message, .running =>
      some (.execute m (.mark (.failed (some m.task)) .start
        (.finalize (hookMessage message) true)), .skip)
    | .error message, _ => raised m hook message
    | _, .running =>
      some (.execute m (.generate (Write.running.assign w.now m.task video)),
        .commit (Write.running.tx w.now m.task video))
    | _, .queued => some (.execute m .retry, .commit (Write.queued.tx w.now m.task video))
    | _, write => some (.execute m .finish, .commit (write.tx w.now m.task video))
  | .resolveState r =>
    resolveTurn S w (fun r => .execute m (.resolveState r)) (fun _ => .execute m .finish) r
  | .retry =>
    match a with
    | .raises message => raised m false message
    | _ =>
      if S.retryLimit < m.retries + 1 then
        some (.execute m (.finalize
          "Local demo preview retries exhausted while waiting for machine capacity" false), .skip)
      else some (.done, .requeue ⟨m.task, m.retries + 1⟩)
  | .finalize errorMessage hook =>
    match a with
    | .error message => raised m hook message
    | _ =>
      some (.execute m (.mark (.failed (some m.task)) .start
        (.commit (.failed errorMessage) w.video hook)), .skip)
  | .finish => some (.done, .ack)

end RunDemoPreview

/-! ### One turn -/

/-- One turn of a process that is not killed. -/
def Proc.turn : Proc → Turn
  | .create pc => CreateDemoPreview.step S pid w a pc
  | .cancel pc => CancelDemoPreview.step w a pc
  | .execute m pc => RunDemoPreview.step S w a m pc
  | .idle =>
    match a with
    | .deliver m => if m ∈ w.queue then some (.execute m .start, .deliver m) else none
    | _ => none
  | .clock =>
    match a with
    | .seconds n => some (.clock, .tick n)
    | _ => none
  | .done => none

/-- One turn of a process. -/
def Proc.step (p : Proc) : Turn :=
  match a, p with
  | .lost, .execute m _ => some (.done, .requeue m)
  | .lost, _ => none
  | a, p => p.turn S pid w a

/-- The machine whose processes are the requests and the executions. -/
def system : Machine Pid Answer Proc World :=
  .ofEffects (fun pid a p w => p.step S pid w a) World.apply

/-- A configuration of the system. -/
abbrev State := Conf Pid Proc World

end NextBallUp.Preview
