import NextBallUp.Locks
import Mathlib.Tactic.Tauto

/-!
# What a turn may commit

The rows and ledger entries that a turn of each process may write, with what the process knows of
the rows it replaces. Everything later modules prove about rows starts from `Proc.commits`, and what
they prove about objects and messages from the lemmas after it; none of them looks at the steps of
a process again for it.

## Main definitions

* `Proc.Routed`: an execution runs the task that belongs to the stage of its job
* `Commits`: the transactions a process can end

## Main results

* `routed_of_reach`: executions are routed
* `Proc.commits`: what a turn commits is one of `Commits`
* `rows_of_not_commit`: a turn that commits nothing changes no row and no ledger entry
* `invariant_of_reach`: induction over runs, with all this at hand
-/

namespace NextBallUp

variable {S : Settings} {w w' : World} {pid : Pid} {a : Answer} {p p' : Proc} {f : Effect}

/-! ### What comes next -/

theorem ExecuteTranscode.step_next {e : Execution} {pc : Pc}
    (h : ExecuteTranscode.step S pid e w a pc = some (p, f)) :
    p = .done ∨ (∃ pc', p = .transcode e pc') ∨ ∃ err, p = .onFailure e err true .getJob := by
  cases pc <;> simp only [step, raise, escape, heartbeat, updateJob_eq_some, updateVideo_eq_some,
    lockAndSetJob_eq_some, Table.locate_eq_some] at h
  all_goals grind [updateJob_eq_some]

theorem ExecuteCvStage.step_next {e : Execution} {pc : Pc}
    (h : ExecuteCvStage.step S pid e w a pc = some (p, f)) :
    p = .done ∨ (∃ pc', p = .cvStage e pc') ∨ ∃ err, p = .onFailure e err false .getJob := by
  cases pc <;> simp only [step, escape, updateJob_eq_some] at h
  all_goals grind [Table.locate_eq_some]

theorem TerminalFailure.step_next {e : Execution} {err : TaskError} {failVideo : Bool} {pc : Pc}
    (h : TerminalFailure.step pid e err failVideo w pc = some (p, f)) :
    p = .done ∨ ∃ pc', p = .onFailure e err failVideo pc' := by
  cases pc <;> simp only [step, lockAndSetJob_eq_some] at h
  all_goals grind [updateVideo_eq_some]

/-- A turn of a pass or a request leads to another point of it, or to its end. -/
theorem Proc.turn_next (h : p.turn S pid a w = some (p', f)) :
    match p with
    | .worker => ∃ m : Message, m ∈ w.queue ∧ p' = m.start
    | .dispatch _ => ∃ pc, p' = .dispatch pc
    | .recover _ => ∃ pc, p' = .recover pc
    | .abandoned _ => ∃ pc, p' = .abandoned pc
    | .rawDeletes pass _ => ∃ pc, p' = .rawDeletes pass pc
    | .initiate req _ => p' = .done ∨ ∃ pc, p' = .initiate req pc
    | .complete req _ => p' = .done ∨ ∃ pc, p' = .complete req pc
    | .cancelUpload v _ => p' = .done ∨ ∃ pc, p' = .cancelUpload v pc
    | .deleteFailed v _ => p' = .done ∨ ∃ pc, p' = .deleteFailed v pc
    | .cancelProcessing v u _ => p' = .done ∨ ∃ pc, p' = .cancelProcessing v u pc
    | .requeueProcessing v _ => p' = .done ∨ ∃ pc, p' = .requeueProcessing v pc
    | .client .. => p' = .done
    | .clock => p' = .clock
    | _ => True := by
  cases p with
  | worker =>
    simp only [turn] at h
    split at h
    · obtain ⟨m, hm, h⟩ := Option.map_eq_some_iff.mp h
      cases h
      exact ⟨m, List.mem_of_getElem? hm, rfl⟩
    · cases h
  | transcode | cvStage | onFailure => trivial
  | dispatch pc =>
    cases pc <;> simp only [turn, DispatchPendingJobs.step, Table.locate_eq_some] at h <;> grind
  | recover pc =>
    cases pc <;> simp only [turn, RecoverStaleJobs.step, updateVideo_eq_some,
      lockAndSetJob_eq_some] at h <;> grind
  | abandoned pc =>
    cases pc <;> simp only [turn, CleanupAbandonedUploads.step, Table.locate_eq_some] at h <;> grind
  | rawDeletes pass pc =>
    cases pc <;> simp only [turn, RawDeletes.step, updateVideo_eq_some] at h <;> grind
  | initiate req pc =>
    cases pc <;> simp only [turn, InitiateUpload.step, InitiateUpload.deny] at h <;> grind
  | complete req pc =>
    cases pc <;> simp only [turn, CompleteUpload.step, Table.locate_eq_some] at h <;> grind
  | cancelUpload v pc =>
    cases pc <;> simp only [turn, CancelUpload.step, Table.locate_eq_some] at h <;> grind
  | deleteFailed v pc =>
    cases pc <;> simp only [turn, DeleteFailedVideo.step, Table.locate_eq_some] at h <;> grind
  | cancelProcessing v u pc =>
    cases pc <;> simp only [turn, CancelProcessing.step, Table.locate_eq_some] at h <;> grind
  | requeueProcessing v pc =>
    cases pc <;> simp only [turn, RequeueProcessing.step, Table.locate_eq_some] at h <;> grind
  | client v o =>
    simp only [turn] at h
    grind
  | clock =>
    simp only [turn] at h
    grind
  | done => trivial

/-! ### Routing -/

/-- An execution runs the task that belongs to the stage of its job, and only a failed transcode
fails its video. -/
def Proc.Routed : Proc → Prop
  | .transcode e _ => e.job.stage = .transcode
  | .cvStage e _ => e.job.stage ≠ .transcode
  | .onFailure e _ failVideo _ => failVideo = true ↔ e.job.stage = .transcode
  | _ => True

theorem Message.routed_start (m : Message) : m.start.Routed := by
  unfold Message.start
  split
  next h => exact h
  next h => exact h

theorem Proc.step_of_not_error (ha : ∀ message, a ≠ .error message) :
    p.step S pid a w = p.turn S pid a w := by
  cases a <;> first | rfl | exact absurd rfl (ha _)

theorem Proc.step_error {message : String} :
    p.step S pid (.error message) w = some (p', f) ↔
      p.onError message = some p' ∧ f = .commit {} := by
  simp only [step, Option.map_eq_some_iff, Prod.mk.injEq]
  constructor
  · rintro ⟨q, hq, rfl, rfl⟩
    exact ⟨hq, rfl⟩
  · rintro ⟨hq, rfl⟩
    exact ⟨p', hq, rfl, rfl⟩

theorem ExecuteTranscode.onError_eq (e : Execution) (message : String) (pc : Pc) :
    (∃ err, onError e message pc = .transcode e (.checkActive err)) ∨
      ∃ err, onError e message pc = .onFailure e err true .getJob := by
  cases pc <;> first | exact .inl ⟨_, rfl⟩ | exact .inr ⟨_, rfl⟩

theorem Proc.Routed.step (hp : p.Routed) (h : p.step S pid a w = some (p', f)) : p'.Routed := by
  by_cases ha : ∃ message, a = .error message
  · obtain ⟨message, rfl⟩ := ha
    obtain ⟨hq, -⟩ := Proc.step_error.mp h
    cases p with
    | transcode e pc =>
      cases hq
      rcases ExecuteTranscode.onError_eq e message pc with ⟨err, he⟩ | ⟨err, he⟩ <;> rw [he]
      · exact hp
      · exact iff_of_true rfl hp
    | cvStage e pc =>
      cases hq
      exact iff_of_false Bool.false_ne_true hp
    | _ => cases hq <;> trivial
  · rw [Proc.step_of_not_error (fun m hm => ha ⟨m, hm⟩)] at h
    cases p with
    | transcode e pc =>
      rcases ExecuteTranscode.step_next h with rfl | ⟨pc', rfl⟩ | ⟨err, rfl⟩
      · trivial
      · exact hp
      · exact iff_of_true rfl hp
    | cvStage e pc =>
      rcases ExecuteCvStage.step_next h with rfl | ⟨pc', rfl⟩ | ⟨err, rfl⟩
      · trivial
      · exact hp
      · exact iff_of_false Bool.false_ne_true hp
    | onFailure e err failVideo pc =>
      rcases TerminalFailure.step_next h with rfl | ⟨pc', rfl⟩
      · trivial
      · exact hp
    | worker =>
      obtain ⟨m, -, rfl⟩ := turn_next h
      exact m.routed_start
    | done => cases h
    | _ =>
      have := turn_next h
      grind [Routed]

theorem routed_of_reach {ok : State → Pid → Answer → Prop} {c : State}
    (h : (system S).Reach Deployed ok c) : ∀ i, (c.procs i).Routed := by
  refine h.forall_local (L := fun _ p _ => p.Routed) ?_ ?_ fun _ _ _ _ _ _ _ _ _ _ _ h => h
  · intro c hc i
    have := hc.2 i
    revert this
    cases c.procs i <;> first | exact fun _ => trivial | exact False.elim
  · intro i a p w p' w' hp hs
    obtain ⟨⟨q, e⟩, ht, hq⟩ := Option.map_eq_some_iff.mp hs
    cases hq
    exact hp.step ht

/-! ### Where a process comes from -/

theorem Message.start_eq (m : Message) :
    m.start = .transcode ⟨m.taskId, m.job⟩ .loadJob ∨
      m.start = .cvStage ⟨m.taskId, m.job⟩ .loadJob := by
  unfold start
  split
  · exact .inl rfl
  · exact .inr rfl

/-- Where a turn of `p` that ends at `p'` with the effect `f` has begun. -/
def Proc.Origin (S : Settings) (pid : Pid) (a : Answer) (w : World) (f : Effect) (p : Proc) :
    Proc → Prop
  | .transcode e pc' => (p = .worker ∧ pc' = .loadJob) ∨ ∃ pc, p = .transcode e pc ∧
    (ExecuteTranscode.step S pid e w a pc = some (.transcode e pc', f) ∨
      ∃ err, pc' = .checkActive err)
  | .cvStage e pc' => (p = .worker ∧ pc' = .loadJob) ∨ ∃ pc, p = .cvStage e pc ∧
    ExecuteCvStage.step S pid e w a pc = some (.cvStage e pc', f)
  | .onFailure e err failVideo pc' => pc' = .getJob ∨ ∃ pc, p = .onFailure e err failVideo pc ∧
    TerminalFailure.step pid e err failVideo w pc = some (.onFailure e err failVideo pc', f)
  | .dispatch pc' =>
    ∃ pc, p = .dispatch pc ∧ DispatchPendingJobs.step S pid w a pc = some (.dispatch pc', f)
  | .recover pc' =>
    ∃ pc, p = .recover pc ∧ RecoverStaleJobs.step S pid w a pc = some (.recover pc', f)
  | .abandoned pc' =>
    ∃ pc, p = .abandoned pc ∧ CleanupAbandonedUploads.step S pid w a pc = some (.abandoned pc', f)
  | .rawDeletes pass pc' => ∃ pc, p = .rawDeletes pass pc ∧
    RawDeletes.step S pass pid w a pc = some (.rawDeletes pass pc', f)
  | .initiate req pc' =>
    ∃ pc, p = .initiate req pc ∧ InitiateUpload.step S pid req w a pc = some (.initiate req pc', f)
  | .complete req pc' =>
    ∃ pc, p = .complete req pc ∧ CompleteUpload.step S pid req w a pc = some (.complete req pc', f)
  | .cancelUpload v pc' =>
    ∃ pc, p = .cancelUpload v pc ∧ CancelUpload.step S pid v w a pc = some (.cancelUpload v pc', f)
  | .deleteFailed v pc' => ∃ pc, p = .deleteFailed v pc ∧
    DeleteFailedVideo.step S pid v w a pc = some (.deleteFailed v pc', f)
  | .requeueProcessing v pc' => ∃ pc, p = .requeueProcessing v pc ∧
    RequeueProcessing.step S pid v w a pc = some (.requeueProcessing v pc', f)
  | _ => True

/-- An execution begins with a message, a pass or a request has always been one, and only the
handler of an error comes from elsewhere. -/
theorem Proc.step_origin (h : p.step S pid a w = some (p', f)) : p.Origin S pid a w f p' := by
  by_cases ha : ∃ message, a = .error message
  · obtain ⟨message, rfl⟩ := ha
    obtain ⟨hq, -⟩ := Proc.step_error.mp h
    cases p with
    | transcode e pc =>
      have hq := Option.some.inj hq
      rcases ExecuteTranscode.onError_eq e message pc with ⟨err, he⟩ | ⟨err, he⟩ <;> rw [he] at hq
      · cases hq
        exact .inr ⟨pc, rfl, .inr ⟨err, rfl⟩⟩
      · cases hq
        exact .inl rfl
    | cvStage e pc =>
      cases hq
      exact .inl rfl
    | _ => cases hq <;> trivial
  · rw [Proc.step_of_not_error (fun m hm => ha ⟨m, hm⟩)] at h
    cases p with
    | transcode e pc =>
      rcases ExecuteTranscode.step_next h with rfl | ⟨_, rfl⟩ | ⟨_, rfl⟩
      · trivial
      · exact .inr ⟨pc, rfl, .inl h⟩
      · exact .inl rfl
    | cvStage e pc =>
      rcases ExecuteCvStage.step_next h with rfl | ⟨_, rfl⟩ | ⟨_, rfl⟩
      · trivial
      · exact .inr ⟨pc, rfl, h⟩
      · exact .inl rfl
    | onFailure e err failVideo pc =>
      rcases TerminalFailure.step_next h with rfl | ⟨_, rfl⟩
      · trivial
      · exact .inr ⟨pc, rfl, h⟩
    | worker =>
      obtain ⟨m, -, rfl⟩ := Proc.turn_next h
      rcases m.start_eq with he | he <;> rw [he] <;> exact .inl ⟨rfl, rfl⟩
    | done => cases h
    | dispatch pc | recover pc | abandoned pc | rawDeletes _ pc =>
      obtain ⟨_, rfl⟩ := Proc.turn_next h
      exact ⟨pc, rfl, h⟩
    | initiate _ pc | complete _ pc | cancelUpload _ pc | deleteFailed _ pc
    | requeueProcessing _ pc =>
      rcases Proc.turn_next h with rfl | ⟨_, rfl⟩
      · trivial
      · exact ⟨pc, rfl, h⟩
    | cancelProcessing =>
      rcases Proc.turn_next h with rfl | ⟨_, rfl⟩ <;> trivial
    | client | clock =>
      rw [Proc.turn_next h]
      trivial

/-! ### Commits -/

/-- The videos that a pass over raw objects has still to treat, the current one first. -/
def RawDeletes.batch : RawDeletes.Pc → List (VideoId × Video)
  | .request video rest _ _ | .deleteObject video rest _ _ | .markFailed video rest _ _
  | .markDeleted video rest _ _ => video :: rest
  | .select | .finished _ => []

/-- What a pass over raw objects makes of a video. -/
structure IsRawUpdate (pc : RawDeletes.Pc) (r r' : Video) : Prop where
  status : r'.status = r.status
  teamId : r'.teamId = r.teamId
  fileSizeBytes : r'.fileSizeBytes = r.fileSizeBytes
  storageKeyRaw : r'.storageKeyRaw = r.storageKeyRaw ∨ r'.storageKeyRaw = none
  storageKeyMezzanine : r'.storageKeyMezzanine = r.storageKeyMezzanine
  storageKeyHls : r'.storageKeyHls = r.storageKeyHls
  demoPreviewStorageKey : r'.demoPreviewStorageKey = r.demoPreviewStorageKey
  storageOutputSha256 : r'.storageOutputSha256 = r.storageOutputSha256
  rawDeleteRequestedAt : r'.rawDeleteRequestedAt = r.rawDeleteRequestedAt ∨
    ∃ video rest now deleted, pc = .request video rest now deleted

/-- The transactions that a turn of `p` can end in the world `w`. -/
inductive Commits (S : Settings) (pid : Pid) (w : World) (p : Proc) : Tx → Prop
  | nothing {log} : Commits S pid w p { auditLogs := log }
  | claim {e r log} :
    p = .transcode e .claimJob ∨ p = .cvStage e .claimJob →
    w.jobs.row e.job = some r → r.status = .pending →
    Commits S pid w p { jobs := [(e.job, (claimJob e.taskId w.now).set r)], auditLogs := log }
  | heartbeat {e taskId n r log} :
    (∃ pc, p = .transcode e pc ∧ taskId = some e.taskId) ∨
      (p = .cvStage e .heartbeat25 ∨ ∃ b, p = .cvStage e (.heartbeat75 b)) ∧ taskId = none →
    w.jobs.row e.job = some r → r.isActive taskId →
    Commits S pid w p
      { jobs := [(e.job, (touchHeartbeat taskId n w.now).set r)], auditLogs := log }
  | setProcessing {e r log} :
    p = .transcode e .setProcessing →
    w.videos.row e.job.videoId = some r → r.status = .queued ∨ r.status = .processing →
    Commits S pid w p
      { videos := [(e.job.videoId, { r with status := .processing })], auditLogs := log }
  | materialize {e video verification artifact job r log} :
    p = .transcode e (.materialize video verification artifact job) →
    w.jobs.row e.job = some job → job.isActive (some e.taskId) →
    w.videos.row e.job.videoId = some r → r.status = .processing →
    Commits S pid w p
      { videos := [(e.job.videoId, (ExecuteTranscode.materializeOutputs S w video artifact).set r)],
        auditLogs := log }
  | setProcessed {e job completed o queued log} :
    p = .transcode e (.setProcessed job completed) →
    w.jobs.row e.job = some job → IsCompletion (some e.taskId) job completed →
    w.videos.Located pid e.job.videoId (setVideoStatus .processed [.processing]).cond o →
    queued = [] ∨ queued = queueNextStage S w e.job.videoId .transcode ∧
      w.videos.row e.job.videoId ≠ none →
    Commits S pid w p
      { videos := (o.map fun r => (e.job.videoId, { r with status := .processed })).toList,
        jobs := (e.job, completed) :: queued, auditLogs := log }
  | setQueued {e err job o log} :
    p = .transcode e (.setQueued err job) →
    (∀ x, job = some x → w.jobs.row e.job = some x.1 ∧ IsRelease x.1 x.2) →
    w.videos.Located pid e.job.videoId (setVideoStatus .queued [.processing, .queued]).cond o →
    Commits S pid w p
      { videos := (o.map fun r => (e.job.videoId, { r with status := .queued })).toList,
        jobs := (job.map fun x => (e.job, x.2)).toList, auditLogs := log }
  | setFailed {e job o log} :
    p = .transcode e (.setFailed job) →
    (∀ x, job = some x → w.jobs.row e.job = some x.1 ∧ IsFailure x.1 x.2) →
    w.videos.Located pid e.job.videoId (setVideoStatus .failed [.processing, .queued]).cond o →
    Commits S pid w p
      { videos := (o.map fun r => (e.job.videoId, { r with status := .failed })).toList,
        jobs := (job.map fun x => (e.job, x.2)).toList, auditLogs := log }
  | hookFailed {e err x o log} :
    p = .onFailure e err true (.setFailed (some x)) →
    w.jobs.row e.job = some x.1 → IsFailure x.1 x.2 →
    w.videos.Located pid e.job.videoId (setVideoStatus .failed []).cond o →
    Commits S pid w p
      { videos := (o.map fun r => (e.job.videoId, { r with status := .failed })).toList,
        jobs := [(e.job, x.2)], auditLogs := log }
  | hookFailedJob {e err x log} :
    p = .onFailure e err false (.setFailed (some x)) →
    w.jobs.row e.job = some x.1 → IsFailure x.1 x.2 →
    Commits S pid w p { jobs := [(e.job, x.2)], auditLogs := log }
  | cvComplete {e b o log} :
    p = .cvStage e (.completeJob b) →
    w.jobs.Located pid e.job (·.isActive none) o →
    (queueNextStage S w e.job.videoId e.job.stage = [] ∨ w.videos.row e.job.videoId ≠ none) →
    Commits S pid w p
      { jobs := (o.map fun r => (e.job, (completeJob none
          (ExecuteCvStage.stageMetadata e.job.stage b) w.now).set r)).toList ++
          queueNextStage S w e.job.videoId e.job.stage,
        auditLogs := log }
  | cvFailed {e code message r log} :
    p = .cvStage e (.failJob code message) →
    w.jobs.row e.job = some r → r.status = .pending ∨ r.status = .running →
    Commits S pid w p
      { jobs := [(e.job, (failJob code message none w.now).set r)], auditLogs := log }
  | record {j taskId rest dispatched r log} :
    p = .dispatch (.record j taskId rest dispatched) →
    w.jobs.row j = some r → r.status = .pending → r.celeryTaskId = none →
    Commits S pid w p
      { jobs := [(j, { r with celeryTaskId := some taskId })], auditLogs := log }
  | recoverFailed {job failed time rest turns o log} :
    p = .recover (.setFailed job failed time rest turns) →
    (∀ x, failed = some x → w.jobs.row job.1 = some x.1 ∧ IsFailure x.1 x.2) →
    w.videos.Located pid job.1.videoId (setVideoStatus .failed [.processing, .queued]).cond o →
    Commits S pid w p
      { videos := (o.map fun r => (job.1.videoId, { r with status := .failed })).toList,
        jobs := (failed.map fun x => (job.1, x.2)).toList, auditLogs := log }
  | abandonedRelease {video moved cleaned account net rest turns log} :
    p = .abandoned (.release video moved cleaned account net rest turns) →
    (∀ r, moved = some r → w.videos.row video.1 = some r ∧ r.status = .pendingUpload) →
    Commits S pid w p
      { videos := (moved.map fun r =>
          (video.1, CleanupAbandonedUploads.failUpload.set r)).toList,
        usageEvents := releaseEvents account net video.2.teamId video.1 w.now,
        auditLogs := log }
  | raw {pass pc x rest r r' log} :
    p = .rawDeletes pass pc → RawDeletes.batch pc = x :: rest →
    w.videos.row x.1 = some r → IsRawUpdate pc r r' →
    Commits S pid w p { videos := [(x.1, r')], auditLogs := log }
  | insertVideo {req account plan v uploadId log} :
    p = .initiate req (.insertVideo account plan v uploadId) →
    w.videos.row v = none → v < w.uuid → w.accountTeamLinks req.teamId = some account →
    w.accounts.row account = some plan →
    Commits S pid w p
      { videos := [(v, InitiateUpload.newVideo S req w v uploadId)],
        usageEvents := initiateEvents account req.teamId v req.fileSizeBytes w.now,
        auditLogs := log }
  | queueTranscode {req video log} :
    p = .complete req (.queueTranscode video) →
    w.videos.row req.videoId = some video → video.status = .pendingUpload →
    w.jobs.row (transcodeJob req.videoId) = none →
    Commits S pid w p
      { videos := [(req.videoId, CompleteUpload.queued S req w video)],
        jobs := [(transcodeJob req.videoId, .new w.now)], auditLogs := log }
  | cancelUpload {v video account net log} :
    p = .cancelUpload v (.release video account net) →
    w.videos.row v = some video → video.status = .pendingUpload →
    Commits S pid w p
      { videos := [(v, CleanupAbandonedUploads.failUpload.set video)],
        usageEvents := releaseEvents account net video.teamId v w.now, auditLogs := log }
  | markFailed {v video log} :
    p = .deleteFailed v (.markFailed video) →
    w.videos.row v = some video → video.status = .failed ∨ video.status = .pendingUpload →
    Commits S pid w p
      { videos := [(v, DeleteFailedVideo.markCleanupFailed w video)], auditLogs := log }
  | deleteVideo {v video account net log} :
    p = .deleteFailed v (.release video account net) →
    w.videos.row v = some video → video.status = .failed ∨ video.status = .pendingUpload →
    Commits S pid w p
      { deleted := [v], usageEvents := releaseEvents account net video.teamId v w.now,
        auditLogs := log }
  | cancelProcessing {v userId video loaded row log} :
    p = .cancelProcessing v userId (.setFailed video loaded row) →
    w.videos.row v = some video → video.status = .processing ∨ video.status = .queued →
    w.jobs.row (transcodeJob v) = some row → loaded.status = .running →
    Commits S pid w p
      { videos := [(v, { video with status := .failed })],
        jobs := [(transcodeJob v, loaded.flush (CancelProcessing.cancelled userId w loaded) row)],
        auditLogs := log }
  | requeueProcessing {v video loaded row log} :
    p = .requeueProcessing v (.setPending video loaded row) →
    w.videos.row v = some video → video.status = .failed →
    w.jobs.row (transcodeJob v) = some row → loaded.status = .failed →
    Commits S pid w p
      { videos := [(v, { video with status := .queued })],
        jobs := [(transcodeJob v, loaded.flush (RequeueProcessing.requeued loaded) row)],
        auditLogs := log }

/-- What a turn commits is one of `Commits`. -/
def Turn.Accounted (S : Settings) (pid : Pid) (w : World) (p : Proc) (t : Turn) : Prop :=
  ∀ p' tx, t = some (p', .commit tx) → Commits S pid w p tx

section Rules

variable {q : Proc} {j : JobId} {v : VideoId} {log : List (AuditAction × Resource)}

theorem accounted_none : Turn.Accounted S pid w p none := fun _ _ h => by cases h

theorem accounted_some {f : Effect} (hf : ∀ tx, f = .commit tx → Commits S pid w p tx) :
    Turn.Accounted S pid w p (some (q, f)) := by
  rintro _ tx ⟨⟩
  exact hf tx rfl

theorem accounted_silent {f : Effect} (hf : ∀ tx, f ≠ .commit tx) :
    Turn.Accounted S pid w p (some (q, f)) :=
  accounted_some fun tx h => absurd h (hf tx)

theorem accounted_audit : Turn.Accounted S pid w p (some (q, .commit { auditLogs := log })) :=
  accounted_some fun _ h => by cases h; exact .nothing

theorem accounted_locate {K R : Type} {t : Table K R Pid} {k : K} {c : R → Bool}
    {g : Option R → Proc × Effect}
    (h : ∀ o, t.Located pid k c o → ∀ tx, (g o).2 = .commit tx → Commits S pid w p tx) :
    Turn.Accounted S pid w p (t.locate pid k c g) := by
  intro p' tx he
  obtain ⟨o, ho, he⟩ := Table.locate_eq_some.mp he
  exact h o ho tx (congrArg Prod.snd he)

theorem accounted_updateJob {u : Update ProcessingJob} {next : Option ProcessingJob → Proc}
    (h : ∀ r, w.jobs.row j = some r → u.cond r = true →
      Commits S pid w p { jobs := [(j, u.set r)], auditLogs := log }) :
    Turn.Accounted S pid w p (updateJob w pid j u log next) := by
  refine accounted_locate fun o ho tx he => ?_
  cases he
  cases ho with
  | miss => exact .nothing
  | hit hr hc _ => exact h _ hr hc

theorem accounted_updateVideo {u : Update Video} {jobs : List (JobId × ProcessingJob)}
    {next : Option Video → Proc}
    (h : ∀ o, w.videos.Located pid v u.cond o → Commits S pid w p
      { videos := (o.map fun r => (v, u.set r)).toList, jobs := jobs, auditLogs := log }) :
    Turn.Accounted S pid w p (updateVideo w pid v u jobs log next) := by
  refine accounted_locate fun o ho tx he => ?_
  cases he
  exact h o ho

theorem accounted_lockAndSetJob {u : Update ProcessingJob}
    {next : Option (ProcessingJob × ProcessingJob) → Proc} :
    Turn.Accounted S pid w p (lockAndSetJob w pid j u next) :=
  accounted_locate fun _ _ _ he => by cases he

end Rules

theorem ExecuteTranscode.step_accounted {e : Execution} {pc : Pc}
    (h : Proc.Holds S pid w (.transcode e pc)) :
    Turn.Accounted S pid w (.transcode e pc) (step S pid e w a pc) := by
  have hb {n next} : Turn.Accounted S pid w (.transcode e pc) (heartbeat pid e w n next) :=
    accounted_updateJob fun r hr hc => .heartbeat (.inl ⟨pc, rfl, rfl⟩) hr hc
  cases pc with
  | claimJob =>
    simp only [step]
    refine accounted_updateJob fun r hr hc => .claim (.inl rfl) hr ?_
    simpa [NextBallUp.claimJob] using hc
  | setProcessing =>
    simp only [step]
    refine accounted_updateVideo fun o ho => ?_
    cases ho with
    | miss => exact .nothing
    | hit hr hc _ => exact .setProcessing rfl hr (by simpa [setVideoStatus] using hc)
  | heartbeat10 | heartbeat50 | heartbeat80 =>
    simp only [step]
    exact hb
  | lockJob video verification artifact =>
    simp only [step]
    refine accounted_locate fun o ho tx he => ?_
    cases ho with
    | miss => cases he; exact .nothing
    | hit => cases he
  | materialize video verification artifact job =>
    simp only [step]
    refine accounted_updateVideo fun o ho => ?_
    cases ho with
    | miss => exact .nothing
    | hit hr hc _ =>
      exact .materialize rfl h.1.2 h.2 hr (by simpa [materializeOutputs] using hc)
  | auditOutput => exact accounted_audit
  | completeJob | releaseJob | failJob =>
    simp only [step]
    exact accounted_lockAndSetJob
  | setProcessed job completed =>
    simp only [step]
    refine accounted_updateVideo fun o ho => .setProcessed rfl h.1.2 h.2 ho ?_
    split
    · exact .inl rfl
    · next hr => exact .inr ⟨rfl, by simp [hr]⟩
  | setQueued err job =>
    simp only [step]
    refine accounted_updateVideo fun o ho => .setQueued rfl ?_ ho
    rintro x rfl
    exact ⟨h.1.2, h.2⟩
  | setFailed job =>
    simp only [step]
    refine accounted_updateVideo fun o ho => .setFailed rfl ?_ ho
    rintro x rfl
    exact ⟨h.1.2, h.2⟩
  | loadJob | loadVideo | verifyStorage | download | transcode | uploadOutput | headOutput
  | deleteOutput | checkActive | retry =>
    simp only [step, raise] at hb ⊢
    repeat' split
    all_goals first | exact hb | exact accounted_none | exact accounted_silent fun _ h => by cases h

theorem ExecuteCvStage.step_accounted {e : Execution} {pc : Pc} :
    Turn.Accounted S pid w (.cvStage e pc) (step S pid e w a pc) := by
  cases pc with
  | claimJob =>
    simp only [step]
    refine accounted_updateJob fun r hr hc => .claim (.inr rfl) hr ?_
    simpa [NextBallUp.claimJob] using hc
  | auditStarted => exact accounted_audit
  | heartbeat25 =>
    simp only [step]
    exact accounted_updateJob fun r hr hc => .heartbeat (.inr ⟨.inl rfl, rfl⟩) hr hc
  | heartbeat75 contractOnly =>
    simp only [step]
    exact accounted_updateJob fun r hr hc => .heartbeat (.inr ⟨.inr ⟨_, rfl⟩, rfl⟩) hr hc
  | failJob code message =>
    simp only [step]
    refine accounted_updateJob fun r hr hc => .cvFailed rfl hr ?_
    simpa [NextBallUp.failJob] using hc
  | completeJob contractOnly =>
    simp only [step]
    split
    · exact accounted_audit
    · next hq =>
      refine accounted_locate fun o ho tx he => ?_
      cases he
      exact .cvComplete rfl ho (by tauto)
  | loadUpstream =>
    simp only [step]
    split
    · exact accounted_audit
    · split <;> exact accounted_silent fun _ h => by cases h
  | loadJob | loadVideo | selectArtifact =>
    simp only [step]
    repeat' split
    all_goals first | exact accounted_none | exact accounted_silent fun _ h => by cases h

theorem TerminalFailure.step_accounted {e : Execution} {err : TaskError} {failVideo : Bool}
    {pc : Pc} (h : Proc.Holds S pid w (.onFailure e err failVideo pc)) :
    Turn.Accounted S pid w (.onFailure e err failVideo pc) (step pid e err failVideo w pc) := by
  cases pc with
  | getJob =>
    simp only [step]
    split <;> exact accounted_silent fun _ h => by cases h
  | failJob =>
    simp only [step]
    exact accounted_lockAndSetJob
  | setFailed job =>
    simp only [step]
    cases job with
    | none => exact accounted_audit
    | some x =>
      cases failVideo with
      | false => exact accounted_some fun _ he => by cases he; exact .hookFailedJob rfl h.1.2 h.2
      | true =>
        rw [if_pos ⟨rfl, rfl⟩]
        exact accounted_updateVideo fun o ho => .hookFailed rfl h.1.2 h.2 ho

theorem DispatchPendingJobs.step_accounted {pc : Pc} :
    Turn.Accounted S pid w (.dispatch pc) (step S pid w a pc) := by
  cases pc with
  | record job taskId rest dispatched =>
    simp only [step]
    refine accounted_locate fun o ho tx he => ?_
    cases ho with
    | miss => cases he
    | @hit r hr hc _ =>
      cases he
      have hc : r.status = .pending ∧ r.celeryTaskId = none := by simpa [recordTask] using hc
      exact .record rfl hr hc.1 hc.2
  | select | enqueue | finished =>
    simp only [step]
    repeat' split
    all_goals first | exact accounted_none | exact accounted_silent fun _ h => by cases h

theorem RecoverStaleJobs.step_accounted {pc : Pc} (h : Proc.Holds S pid w (.recover pc)) :
    Turn.Accounted S pid w (.recover pc) (step S pid w a pc) := by
  cases pc with
  | select =>
    simp only [step]
    repeat' split
    all_goals first | exact accounted_none | exact accounted_silent fun _ h => by cases h
  | failJob job rest locked turns =>
    simp only [step]
    exact accounted_lockAndSetJob
  | setFailed job failed time rest turns =>
    simp only [step]
    refine accounted_updateVideo fun o ho => .recoverFailed rfl ?_ ho
    rintro x rfl
    exact ⟨h.1.2, h.2⟩
  | finished => exact accounted_none

theorem CleanupAbandonedUploads.step_accounted {pc : Pc}
    (h : Proc.Holds S pid w (.abandoned pc)) :
    Turn.Accounted S pid w (.abandoned pc) (step S pid w a pc) := by
  cases pc with
  | release video moved cleaned account net rest turns =>
    refine accounted_some fun _ he => ?_
    cases he
    refine .abandonedRelease rfl ?_
    rintro r rfl
    exact ⟨h.1.2, h.2⟩
  | setFailed video cleaned rest turns =>
    simp only [step]
    refine accounted_locate fun o ho tx he => ?_
    cases ho <;> cases he
  | sumReserved => exact accounted_silent fun _ h => by cases h
  | select | cleanStorage | finished =>
    simp only [step]
    repeat' split
    all_goals first | exact accounted_none | exact accounted_silent fun _ h => by cases h

theorem RawDeletes.step_accounted {pass : RawPass} {pc : Pc} :
    Turn.Accounted S pid w (.rawDeletes pass pc) (step S pass pid w a pc) := by
  have hu {v row rest r' log next} (hb : batch pc = (v, row) :: rest)
      (hr' : ∀ r, IsRawUpdate pc r (r' r)) :
      Turn.Accounted S pid w (.rawDeletes pass pc)
        (updateVideo w pid v (unlessDeleted r') [] log next) := by
    refine accounted_updateVideo fun o ho => ?_
    cases ho with
    | miss => exact .nothing
    | hit hr _ _ => exact .raw rfl hb hr (hr' _)
  cases pc with
  | request =>
    simp only [step]
    exact hu rfl fun r => ⟨rfl, rfl, rfl, .inl rfl, rfl, rfl, rfl, rfl, .inr ⟨_, _, _, _, rfl⟩⟩
  | markFailed =>
    simp only [step]
    exact hu rfl fun r => ⟨rfl, rfl, rfl, .inl rfl, rfl, rfl, rfl, rfl, .inl rfl⟩
  | markDeleted =>
    simp only [step]
    exact hu rfl fun r => ⟨rfl, rfl, rfl, .inr rfl, rfl, rfl, rfl, rfl, .inl rfl⟩
  | select | deleteObject | finished =>
    simp only [step]
    repeat' split
    all_goals first | exact accounted_none | exact accounted_silent fun _ h => by cases h

theorem InitiateUpload.step_accounted {req : InitiateUpload} {pc : Pc}
    (h : Proc.Holds S pid w (.initiate req pc)) :
    Turn.Accounted S pid w (.initiate req pc) (step S pid req w a pc) := by
  cases pc with
  | insertVideo account plan video uploadId =>
    refine accounted_some fun _ he => ?_
    cases he
    rw [uploadEvents_of_link h.2.1 h.1.2]
    exact .insertVideo rfl h.2.2.1.2 h.2.2.2 h.2.1 h.1.2
  | lockAccount | checkUploadQuota | checkStorageQuota | flushVideo | presign =>
    simp only [step, deny]
    repeat' split
    all_goals first
      | exact accounted_none
      | exact accounted_audit
      | exact accounted_silent fun _ h => by cases h

theorem CompleteUpload.step_accounted {req : CompleteUpload} {pc : Pc}
    (h : Proc.Holds S pid w (.complete req pc)) :
    Turn.Accounted S pid w (.complete req pc) (step S pid req w a pc) := by
  cases pc with
  | lockVideo =>
    simp only [step]
    refine accounted_locate fun o ho tx he => ?_
    cases ho <;> grind
  | queueTranscode video =>
    simp only [step]
    split
    · exact accounted_audit
    · next hn =>
      refine accounted_some fun _ he => ?_
      cases he
      exact .queueTranscode rfl h.1.2 h.2 hn
  | auditFailure => exact accounted_audit
  | completeMultipart | verifyObject | deleteRawObject =>
    simp only [step]
    repeat' split
    all_goals exact accounted_silent fun _ h => by cases h

theorem CancelUpload.step_accounted {v : VideoId} {pc : Pc}
    (h : Proc.Holds S pid w (.cancelUpload v pc)) :
    Turn.Accounted S pid w (.cancelUpload v pc) (step S pid v w a pc) := by
  cases pc with
  | lockVideo =>
    simp only [step]
    refine accounted_locate fun o ho tx he => ?_
    cases ho <;> grind
  | rollback => exact accounted_audit
  | release video account net =>
    refine accounted_some fun _ he => ?_
    cases he
    exact .cancelUpload rfl h.1.2 h.2
  | cleanStorage | sumReserved =>
    simp only [step]
    repeat' split
    all_goals exact accounted_silent fun _ h => by cases h

theorem DeleteFailedVideo.step_accounted {v : VideoId} {pc : Pc}
    (h : Proc.Holds S pid w (.deleteFailed v pc)) :
    Turn.Accounted S pid w (.deleteFailed v pc) (step S pid v w a pc) := by
  cases pc with
  | lockVideo =>
    simp only [step]
    refine accounted_locate fun o ho tx he => ?_
    cases ho <;> grind
  | cleanStorage video handle rest failures =>
    simp only [step]
    refine accounted_silent fun tx => ?_
    cases handle <;> split <;> simp [remove]
  | markFailed video =>
    refine accounted_some fun _ he => ?_
    cases he
    exact .markFailed rfl h.1.2 h.2
  | sumReserved => exact accounted_silent fun _ h => by cases h
  | release video account net =>
    simp only [step]
    split
    · refine accounted_some fun _ he => ?_
      cases he
      exact .deleteVideo rfl h.1.2 h.2
    · exact accounted_none

theorem CancelProcessing.step_accounted {v : VideoId} {userId : UserId} {pc : Pc}
    (h : Proc.Holds S pid w (.cancelProcessing v userId pc)) :
    Turn.Accounted S pid w (.cancelProcessing v userId pc) (step pid v userId w pc) := by
  cases pc with
  | setFailed video loaded row =>
    refine accounted_some fun _ he => ?_
    cases he
    exact .cancelProcessing rfl h.1.1.2 h.1.2 h.2.1.2 h.2.2
  | loadJob => exact accounted_silent fun _ h => by cases h
  | lockVideo | lockJob =>
    simp only [step]
    refine accounted_locate fun o ho tx he => ?_
    cases ho <;> grind [Commits.nothing]

theorem RequeueProcessing.step_accounted {v : VideoId} {pc : Pc}
    (h : Proc.Holds S pid w (.requeueProcessing v pc)) :
    Turn.Accounted S pid w (.requeueProcessing v pc) (step S pid v w a pc) := by
  cases pc with
  | setPending video loaded row =>
    refine accounted_some fun _ he => ?_
    cases he
    exact .requeueProcessing rfl h.1.1.2 h.1.2 h.2.1.2 h.2.2
  | loadJob => exact accounted_silent fun _ h => by cases h
  | headRaw =>
    simp only [step]
    repeat' split
    all_goals first | exact accounted_audit | exact accounted_silent fun _ h => by cases h
  | lockVideo | lockJob =>
    simp only [step]
    refine accounted_locate fun o ho tx he => ?_
    cases ho <;> grind [Commits.nothing]

/-- **What a turn commits.** -/
theorem Proc.commits {tx : Tx} (h : p.Holds S pid w)
    (hs : p.step S pid a w = some (p', .commit tx)) : Commits S pid w p tx := by
  by_cases ha : ∃ message, a = .error message
  · obtain ⟨message, rfl⟩ := ha
    obtain ⟨-, he⟩ := Proc.step_error.mp hs
    cases he
    exact .nothing
  · rw [Proc.step_of_not_error (fun m hm => ha ⟨m, hm⟩)] at hs
    cases p with
    | worker =>
      simp only [turn] at hs
      grind
    | transcode e pc => exact ExecuteTranscode.step_accounted h _ _ hs
    | cvStage e pc => exact ExecuteCvStage.step_accounted _ _ hs
    | onFailure e err failVideo pc => exact TerminalFailure.step_accounted h _ _ hs
    | dispatch pc => exact DispatchPendingJobs.step_accounted _ _ hs
    | recover pc => exact RecoverStaleJobs.step_accounted h _ _ hs
    | abandoned pc => exact CleanupAbandonedUploads.step_accounted h _ _ hs
    | rawDeletes pass pc => exact RawDeletes.step_accounted _ _ hs
    | initiate req pc => exact InitiateUpload.step_accounted h _ _ hs
    | complete req pc => exact CompleteUpload.step_accounted h _ _ hs
    | cancelUpload v pc => exact CancelUpload.step_accounted h _ _ hs
    | deleteFailed v pc => exact DeleteFailedVideo.step_accounted h _ _ hs
    | cancelProcessing v userId pc => exact CancelProcessing.step_accounted h _ _ hs
    | requeueProcessing v pc => exact RequeueProcessing.step_accounted h _ _ hs
    | client v o =>
      simp only [turn] at hs
      grind
    | clock =>
      simp only [turn] at hs
      grind
    | done => cases hs

/-- A turn that commits nothing changes no row and no ledger entry. -/
theorem rows_of_not_commit (hf : ∀ tx, f ≠ .commit tx) :
    (w.apply pid f).videos.row = w.videos.row ∧ (w.apply pid f).jobs.row = w.jobs.row ∧
      (w.apply pid f).usageEvents = w.usageEvents := by
  cases f <;> first | exact ⟨rfl, rfl, rfl⟩ | exact absurd rfl (hf _)

/-! ### Runs -/

/-- A state in which every process owns what its program point says, and is routed. -/
structure State.Sound (S : Settings) (c : State) : Prop where
  holds : ∀ i, (c.procs i).Holds S i c.world
  routed : ∀ i, (c.procs i).Routed

/-- A state in which every process owns the jobs and videos that its program point says. -/
def State.HoldsRows (S : Settings) (c : State) : Prop := ∀ i, (c.procs i).HoldsRows S i c.world

theorem State.Sound.rows {c : State} (h : c.Sound S) : c.HoldsRows S := fun i => (h.holds i).rows

theorem sound_of_reach {ok : State → Pid → Answer → Prop} {c : State}
    (h : (system S).Reach Deployed ok c) : c.Sound S := ⟨holds_of_reach h, routed_of_reach h⟩

/-- **Induction over runs of the pipeline.** A turn may assume whatever is known of the reachable
state before it. -/
theorem invariant_of_reach {ok : State → Pid → Answer → Prop} {Q : State → Prop}
    (hinit : ∀ c, Deployed c → Q c)
    (hstep : ∀ (c : State) i a p f, (system S).Reach Deployed ok c → Q c → ok c i a →
      (c.procs i).step S i a c.world = some (p, f) → Q (c.after i p f))
    {c : State} (h : (system S).Reach Deployed ok c) : Q c := by
  induction h with
  | start hc => exact hinit _ hc
  | next hreach hok hn ih =>
    obtain ⟨p, f, hs, rfl⟩ := next_eq_some.mp hn
    exact hstep _ _ _ p f hreach ih hok hs

end NextBallUp
