import NextBallUp.Commits

/-!
# What a turn does to one row

`Commits` says which transactions a turn can end. Here the same is said of a single video and of a
single job: by which statement of which process the row may have come to be what it is.

## Main definitions

* `VideoMove`, `JobMove`: the ways of a row from one turn to the next

## Main results

* `Proc.videoMove`, `Proc.jobMove`: every turn moves every row in one of these ways
-/

namespace NextBallUp

variable {S : Settings} {w w' : World} {pid : Pid} {a : Answer} {p p' : Proc} {f : Effect}

/-- What a turn of `p` in the world `w` can make of the row of video `v`. -/
inductive VideoMove (S : Settings) (w : World) (p : Proc) (v : VideoId) :
    Option Video → Option Video → Prop
  | keep {o} : VideoMove S w p v o o
  | insert {req account plan uploadId} :
    p = .initiate req (.insertVideo account plan v uploadId) →
    VideoMove S w p v none (some (InitiateUpload.newVideo S req w v uploadId))
  | delete {r account net} :
    p = .deleteFailed v (.release r account net) → r.status = .failed ∨ r.status = .pendingUpload →
    VideoMove S w p v (some r) none
  | setProcessing {e r} :
    p = .transcode e .setProcessing → e.job.videoId = v →
    r.status = .queued ∨ r.status = .processing →
    VideoMove S w p v (some r) (some { r with status := .processing })
  | materialize {e video verification artifact job r} :
    p = .transcode e (.materialize video verification artifact job) → e.job.videoId = v →
    r.status = .processing →
    VideoMove S w p v (some r)
      (some ((ExecuteTranscode.materializeOutputs S w video artifact).set r))
  | setProcessed {e job completed r} :
    p = .transcode e (.setProcessed job completed) → e.job.videoId = v → r.status = .processing →
    VideoMove S w p v (some r) (some { r with status := .processed })
  | setQueued {e err job r} :
    p = .transcode e (.setQueued err job) → e.job.videoId = v →
    r.status = .processing ∨ r.status = .queued →
    VideoMove S w p v (some r) (some { r with status := .queued })
  | setFailed {e job r} :
    p = .transcode e (.setFailed job) → e.job.videoId = v →
    r.status = .processing ∨ r.status = .queued →
    VideoMove S w p v (some r) (some { r with status := .failed })
  | hookFailed {e err x r} :
    p = .onFailure e err true (.setFailed (some x)) → e.job.videoId = v →
    VideoMove S w p v (some r) (some { r with status := .failed })
  | recoverFailed {job failed time rest turns r} :
    p = .recover (.setFailed job failed time rest turns) → job.1.videoId = v →
    r.status = .processing ∨ r.status = .queued →
    VideoMove S w p v (some r) (some { r with status := .failed })
  | abandoned {video cleaned account net rest turns r} :
    p = .abandoned (.release video (some r) cleaned account net rest turns) → video.1 = v →
    r.status = .pendingUpload →
    VideoMove S w p v (some r) (some (CleanupAbandonedUploads.failUpload.set r))
  | raw {pass pc x rest r r'} :
    p = .rawDeletes pass pc → RawDeletes.batch pc = x :: rest → x.1 = v → IsRawUpdate pc r r' →
    VideoMove S w p v (some r) (some r')
  | complete {req r} :
    p = .complete req (.queueTranscode r) → req.videoId = v → r.status = .pendingUpload →
    VideoMove S w p v (some r) (some (CompleteUpload.queued S req w r))
  | cancelUpload {r account net} :
    p = .cancelUpload v (.release r account net) → r.status = .pendingUpload →
    VideoMove S w p v (some r) (some (CleanupAbandonedUploads.failUpload.set r))
  | markFailed {r} :
    p = .deleteFailed v (.markFailed r) → r.status = .failed ∨ r.status = .pendingUpload →
    VideoMove S w p v (some r) (some (DeleteFailedVideo.markCleanupFailed w r))
  | cancelProcessing {userId r loaded row} :
    p = .cancelProcessing v userId (.setFailed r loaded row) →
    r.status = .processing ∨ r.status = .queued →
    VideoMove S w p v (some r) (some { r with status := .failed })
  | requeueProcessing {r loaded row} :
    p = .requeueProcessing v (.setPending r loaded row) → r.status = .failed →
    VideoMove S w p v (some r) (some { r with status := .queued })

/-- A turn of the process completes a stage, after which the job is queued. -/
def Proc.queues (j : JobId) (p : Proc) : Prop :=
  ∃ e : Execution, e.job.videoId = j.videoId ∧
    ((∃ job completed, p = .transcode e (.setProcessed job completed)) ∧
        ProcessingJobStage.transcode.next = some j.stage ∨
      (∃ contractOnly, p = .cvStage e (.completeJob contractOnly)) ∧
        e.job.stage.next = some j.stage)

/-- What a turn of `p` in the world `w` can make of the row of job `j`. -/
inductive JobMove (w : World) (p : Proc) (j : JobId) :
    Option ProcessingJob → Option ProcessingJob → Prop
  | keep {o} : JobMove w p j o o
  | insert :
      (∃ req video, p = .complete req (.queueTranscode video) ∧ j = transcodeJob req.videoId) ∨
        p.queues j → w.videos.row j.videoId ≠ none → JobMove w p j none (some (.new w.now))
  | delete {o r account net} :
    p = .deleteFailed j.videoId (.release r account net) → JobMove w p j o none
  | claim {e r} :
    p = .transcode e .claimJob ∨ p = .cvStage e .claimJob → e.job = j → r.status = .pending →
    JobMove w p j (some r) (some ((claimJob e.taskId w.now).set r))
  | heartbeat {e taskId n r} :
    (∃ pc, p = .transcode e pc ∧ taskId = some e.taskId) ∨
      (p = .cvStage e .heartbeat25 ∨ ∃ b, p = .cvStage e (.heartbeat75 b)) ∧ taskId = none →
    e.job = j → r.isActive taskId →
    JobMove w p j (some r) (some ((touchHeartbeat taskId n w.now).set r))
  | complete {e r r'} :
    p = .transcode e (.setProcessed r r') → e.job = j → IsCompletion (some e.taskId) r r' →
    JobMove w p j (some r) (some r')
  | completeStage {e b r r'} :
    p = .cvStage e (.completeJob b) → e.job = j → IsCompletion none r r' →
    JobMove w p j (some r) (some r')
  | release {e err r r'} :
    p = .transcode e (.setQueued err (some (r, r'))) → e.job = j → IsRelease r r' →
    JobMove w p j (some r) (some r')
  | fail {e r r'} :
    p = .transcode e (.setFailed (some (r, r'))) → e.job = j → IsFailure r r' →
    JobMove w p j (some r) (some r')
  | failStage {e code message r r'} :
    p = .cvStage e (.failJob code message) → e.job = j → IsFailure r r' →
    JobMove w p j (some r) (some r')
  | hookFail {e err failVideo r r'} :
    p = .onFailure e err failVideo (.setFailed (some (r, r'))) → e.job = j → IsFailure r r' →
    JobMove w p j (some r) (some r')
  | recoverFail {job time rest turns r r'} :
    p = .recover (.setFailed job (some (r, r')) time rest turns) → job.1 = j → IsFailure r r' →
    JobMove w p j (some r) (some r')
  | record {taskId rest dispatched r} :
    p = .dispatch (.record j taskId rest dispatched) → r.status = .pending →
    r.celeryTaskId = none →
    JobMove w p j (some r) (some { r with celeryTaskId := some taskId })
  | cancelProcessing {v userId video loaded row} :
    p = .cancelProcessing v userId (.setFailed video loaded row) → transcodeJob v = j →
    loaded.status = .running →
    JobMove w p j (some row) (some (loaded.flush (CancelProcessing.cancelled userId w loaded) row))
  | requeueProcessing {v video loaded row} :
    p = .requeueProcessing v (.setPending video loaded row) → transcodeJob v = j →
    loaded.status = .failed →
    JobMove w p j (some row) (some (loaded.flush (RequeueProcessing.requeued loaded) row))

theorem videoMove_of_commits {tx : Tx} (h : Commits S pid w p tx) (v : VideoId) :
    VideoMove S w p v (w.videos.row v) ((w.commit pid tx).videos.row v) := by
  have put {u : VideoId} {r r' : Video} (hr : w.videos.row u = some r)
      (hm : VideoMove S w p u (some r) (some r')) :
      VideoMove S w p v (w.videos.row v) ((w.videos.put u r').row v) := by
    rw [Table.row_put]
    split
    · next hv => rw [hv, hr]; exact hm
    · exact .keep
  -- An update of a video that may match no row.
  have located {u : VideoId} {c : Video → Bool} {set : Video → Video} {o : Option Video}
      (ho : w.videos.Located pid u c o)
      (hm : ∀ r, c r = true → VideoMove S w p u (some r) (some (set r))) :
      VideoMove S w p v (w.videos.row v)
        ((w.videos.putAll (o.map fun r => (u, set r)).toList).row v) := by
    cases ho with
    | miss => exact .keep
    | hit hr hc => exact put hr (hm _ hc)
  simp only [World.row_videos_commit]
  cases h with
  | nothing | claim | heartbeat | hookFailedJob | cvComplete | cvFailed | record => exact .keep
  | setProcessing hp hr hs => exact put hr (.setProcessing hp rfl hs)
  | materialize hp _ _ hr hs => exact put hr (.materialize hp rfl hs)
  | setProcessed hp _ _ ho =>
    exact located ho fun r hc => .setProcessed hp rfl (by simpa [setVideoStatus] using hc)
  | setQueued hp _ ho =>
    exact located ho fun r hc => .setQueued hp rfl (by simpa [setVideoStatus] using hc)
  | setFailed hp _ ho =>
    exact located ho fun r hc => .setFailed hp rfl (by simpa [setVideoStatus] using hc)
  | hookFailed hp _ _ ho => exact located ho fun r _ => .hookFailed hp rfl
  | recoverFailed hp _ ho =>
    exact located ho fun r hc => .recoverFailed hp rfl (by simpa [setVideoStatus] using hc)
  | @abandonedRelease video moved cleaned account net rest turns log hp hr =>
    cases moved with
    | none => exact .keep
    | some r => exact put (hr r rfl).1 (.abandoned hp rfl (hr r rfl).2)
  | raw hp hb hr hu => exact put hr (.raw hp hb rfl hu)
  | @insertVideo req account plan u uploadId log hp hr =>
    simp only [List.not_mem_nil, if_false, Table.putAll_cons, Table.putAll_nil, Table.row_put]
    split
    · next hv => rw [hv, hr]; exact .insert hp
    · exact .keep
  | queueTranscode hp hr hs => exact put hr (.complete hp rfl hs)
  | cancelUpload hp hr hs => exact put hr (.cancelUpload hp hs)
  | markFailed hp hr hs => exact put hr (.markFailed hp hs)
  | @deleteVideo u video account net log hp hr hs =>
    simp only [List.mem_singleton, Table.putAll_nil]
    split
    · next hv => rw [hv, hr]; exact .delete hp hs
    · exact .keep
  | cancelProcessing hp hr hs => exact put hr (.cancelProcessing hp hs)
  | requeueProcessing hp hr hs => exact put hr (.requeueProcessing hp hs)

theorem jobMove_of_commits {tx : Tx} (h : Commits S pid w p tx) (j : JobId) :
    JobMove w p j (w.jobs.row j) ((w.commit pid tx).jobs.row j) := by
  have put {k : JobId} {r r' : ProcessingJob} (hr : w.jobs.row k = some r)
      (hm : JobMove w p k (some r) (some r')) :
      JobMove w p j (w.jobs.row j) ((w.jobs.put k r').row j) := by
    rw [Table.row_put]
    split
    · next hj => rw [hj, hr]; exact hm
    · exact .keep
  -- The job that is queued for the next stage, after what else the transaction writes.
  have queued {t : Table JobId ProcessingJob Pid} {v : VideoId} {s : ProcessingJobStage}
      (hp : ∀ k : JobId, k.videoId = v → s.next = some k.stage → p.queues k)
      (hv : queueNextStage S w v s = [] ∨ w.videos.row v ≠ none)
      (ht : JobMove w p j (w.jobs.row j) (t.row j)) :
      JobMove w p j (w.jobs.row j) ((t.putAll (queueNextStage S w v s)).row j) := by
    rcases queueNextStage_cases S w v s with hq | ⟨k, rfl, hs, hn, hq⟩
    · rw [hq]
      exact ht
    · have hv := hv.resolve_left (by simp [hq])
      rw [hq, Table.putAll_cons, Table.putAll_nil, Table.row_put]
      split
      · next hj => rw [hj, hn]; exact .insert (.inr (hp k rfl hs)) hv
      · exact ht
  simp only [World.row_jobs_commit]
  cases h with
  | nothing | setProcessing | materialize | abandonedRelease | raw | insertVideo | cancelUpload
  | markFailed => exact .keep
  | claim hp hr hs => exact put hr (.claim hp rfl hs)
  | heartbeat hp hr hs => exact put hr (.heartbeat hp rfl hs)
  | hookFailedJob hp hr hf => exact put hr (.hookFail hp rfl hf)
  | cvFailed hp hr hs =>
    exact put hr (.failStage hp rfl ⟨_, _, _, _, by simpa [failJob] using hs, rfl⟩)
  | record hp hr hs ht => exact put hr (.record hp hs ht)
  | hookFailed hp hr hf => exact put hr (.hookFail hp rfl hf)
  | cancelProcessing hp _ _ hr hl => exact put hr (.cancelProcessing hp rfl hl)
  | requeueProcessing hp _ _ hr hl => exact put hr (.requeueProcessing hp rfl hl)
  | @setQueued e err job o log hp hx ho =>
    cases job with
    | none => exact .keep
    | some x => exact put (hx x rfl).1 (.release hp rfl (hx x rfl).2)
  | @setFailed e job o log hp hx ho =>
    cases job with
    | none => exact .keep
    | some x => exact put (hx x rfl).1 (.fail hp rfl (hx x rfl).2)
  | @recoverFailed job failed time rest turns o log hp hx ho =>
    cases failed with
    | none => exact .keep
    | some x => exact put (hx x rfl).1 (.recoverFail hp rfl (hx x rfl).2)
  | @setProcessed e job completed o _ log hp hr hx ho hq =>
    rcases hq with rfl | ⟨rfl, hv⟩
    · exact put hr (.complete hp rfl hx)
    · refine queued (fun k hk hs => ⟨e, hk.symm, .inl ⟨⟨_, _, hp⟩, hs⟩⟩) (.inr hv) ?_
      exact put hr (.complete hp rfl hx)
  | @cvComplete e b o log hp ho hv =>
    have hq : ∀ k : JobId, k.videoId = e.job.videoId → e.job.stage.next = some k.stage →
        p.queues k := fun k hk hs => ⟨e, hk.symm, .inr ⟨⟨b, hp⟩, hs⟩⟩
    cases ho with
    | miss => exact queued hq hv .keep
    | hit hr hc => exact queued hq hv (put hr (.completeStage hp rfl ⟨_, _, hc, rfl⟩))
  | @queueTranscode req video log hp hv hs hn =>
    simp only [List.not_mem_nil, if_false, Table.putAll_cons, Table.putAll_nil, Table.row_put]
    split
    · next hj => rw [hj, hn]; exact .insert (.inl ⟨_, _, hp, rfl⟩) (by simp [hv])
    · exact .keep
  | @deleteVideo u video account net log hp =>
    simp only [List.mem_singleton, Table.putAll_nil]
    split
    · next hv => exact .delete (hv ▸ hp)
    · exact .keep

/-- **What a turn does to a video.** -/
theorem Proc.videoMove (h : p.Holds S pid w) (hs : p.step S pid a w = some (p', f)) (v : VideoId) :
    VideoMove S w p v (w.videos.row v) ((w.apply pid f).videos.row v) := by
  by_cases hf : ∃ tx, f = .commit tx
  · obtain ⟨tx, rfl⟩ := hf
    exact videoMove_of_commits (Proc.commits h hs) v
  · rw [(rows_of_not_commit fun tx h => hf ⟨tx, h⟩).1]
    exact .keep

/-- What a request for an upload commits. -/
theorem InitiateUpload.step_commit {req : InitiateUpload} {pc : Pc} {tx : Tx}
    (hs : (Proc.initiate req pc).step S pid a w = some (p', .commit tx)) :
    (∃ log, tx = { auditLogs := log }) ∨
      ∃ account plan v uploadId, pc = .insertVideo account plan v uploadId ∧ ∃ log, tx =
        { videos := [(v, newVideo S req w v uploadId)]
          usageEvents := uploadEvents w req.teamId v req.fileSizeBytes
          auditLogs := log } := by
  by_cases ha : ∃ message, a = .error message
  · obtain ⟨message, rfl⟩ := ha
    cases (Proc.step_error.mp hs).2
    exact .inl ⟨[], rfl⟩
  · rw [Proc.step_of_not_error (fun m hm => ha ⟨m, hm⟩)] at hs
    cases pc <;> simp only [Proc.turn, step, deny] at hs
    case insertVideo account plan v uploadId =>
      cases hs
      exact .inr ⟨account, plan, v, uploadId, rfl, _, rfl⟩
    all_goals
      repeat' split at hs
      all_goals cases hs
      all_goals exact .inl ⟨_, rfl⟩

/-- The same when accounts and links may have changed. -/
theorem Proc.videoMove_of_rows (h : p.HoldsRows S pid w) (hs : p.step S pid a w = some (p', f))
    (v : VideoId) : VideoMove S w p v (w.videos.row v) ((w.apply pid f).videos.row v) := by
  by_cases hp : ∃ req pc, p = .initiate req pc
  · obtain ⟨req, pc, rfl⟩ := hp
    by_cases hf : ∃ tx, f = .commit tx
    · obtain ⟨tx, rfl⟩ := hf
      rcases InitiateUpload.step_commit hs with ⟨log, rfl⟩ | ⟨account, plan, u, id, rfl, log, rfl⟩
      · exact .keep
      · simp only [World.apply, World.row_videos_commit, List.not_mem_nil, if_false,
          Table.putAll_cons, Table.putAll_nil, Table.row_put]
        split
        · next hv => rw [hv, h.1.2]; exact .insert rfl
        · exact .keep
    · rw [(rows_of_not_commit fun tx h => hf ⟨tx, h⟩).1]
      exact .keep
  · exact Proc.videoMove (h.holds hp) hs v

/-- **What a turn does to a job.** -/
theorem Proc.jobMove (h : p.Holds S pid w) (hs : p.step S pid a w = some (p', f)) (j : JobId) :
    JobMove w p j (w.jobs.row j) ((w.apply pid f).jobs.row j) := by
  by_cases hf : ∃ tx, f = .commit tx
  · obtain ⟨tx, rfl⟩ := hf
    exact jobMove_of_commits (Proc.commits h hs) j
  · rw [(rows_of_not_commit fun tx h => hf ⟨tx, h⟩).2.1]
    exact .keep

/-! ### Audit rows -/

/-- The audit rows of a transaction. -/
def Effect.auditLogs : Effect → List (AuditAction × Resource)
  | .commit tx => tx.auditLogs
  | _ => []

/-- The actions a process audits. -/
def Proc.auditActions : Proc → List AuditAction
  | .transcode .. => [.videoProcessingStarted, .videoOutputMaterialized, .videoProcessingCompleted,
    .videoProcessingQueued, .videoProcessingFailed]
  | .cvStage .. => [.videoProcessingStarted, .videoProcessingCompleted, .videoProcessingQueued,
    .videoProcessingFailed]
  | .onFailure .. => [.videoProcessingFailed]
  | .dispatch _ => [.videoProcessingDispatched]
  | .recover _ => [.videoProcessingRecoveredStale]
  | .abandoned _ | .cancelUpload .. => [.videoUploadAbandoned]
  | .rawDeletes .. => [.videoRawObjectDeleted, .videoRawObjectDeleteFailed]
  | .initiate .. => [.billingQuotaDenied, .videoUploadFailed, .videoUploadInitiated]
  | .complete .. => [.videoUploadCompleted, .videoProcessingQueued, .videoUploadFailed]
  | .deleteFailed .. => [.videoDeleteFailed, .videoDeleted]
  | .cancelProcessing .. => [.videoProcessingCancelled]
  | .requeueProcessing .. => [.videoProcessingRequeued]
  | .worker | .client .. | .clock | .done => []

/-- **Every process audits only actions of its own.** -/
theorem Proc.step_audits (h : p.step S pid a w = some (p', f)) {x : AuditAction × Resource}
    (hx : x ∈ f.auditLogs) : x.1 ∈ p.auditActions := by
  by_cases ha : ∃ message, a = .error message
  · obtain ⟨message, rfl⟩ := ha
    obtain ⟨-, rfl⟩ := Proc.step_error.mp h
    cases hx
  rw [Proc.step_of_not_error (fun m hm => ha ⟨m, hm⟩)] at h
  cases p with
  | transcode e pc =>
    cases pc <;> simp only [turn, ExecuteTranscode.step, ExecuteTranscode.raise,
      ExecuteTranscode.heartbeat, updateJob_eq_some, updateVideo_eq_some,
      lockAndSetJob_eq_some, Table.locate_eq_some] at h
    all_goals grind [Effect.auditLogs, auditActions, updateJob_eq_some, queuedAudits]
  | cvStage e pc =>
    cases pc <;> simp only [turn, ExecuteCvStage.step, updateJob_eq_some] at h
    all_goals grind [Effect.auditLogs, auditActions, queuedAudits, Table.locate_eq_some]
  | onFailure e err failVideo pc =>
    cases pc <;> simp only [turn, TerminalFailure.step, lockAndSetJob_eq_some] at h
    all_goals grind [updateVideo_eq_some, Effect.auditLogs, auditActions]
  | worker =>
    simp only [turn] at h
    grind [Effect.auditLogs]
  | dispatch pc =>
    cases pc <;> simp only [turn, DispatchPendingJobs.step, Table.locate_eq_some] at h <;>
      grind [Effect.auditLogs, auditActions]
  | recover pc =>
    cases pc <;> simp only [turn, RecoverStaleJobs.step, updateVideo_eq_some,
      lockAndSetJob_eq_some] at h <;> grind [Effect.auditLogs, auditActions]
  | abandoned pc =>
    cases pc <;> simp only [turn, CleanupAbandonedUploads.step, Table.locate_eq_some] at h <;>
      grind [Effect.auditLogs, auditActions]
  | rawDeletes pass pc =>
    cases pc <;> simp only [turn, RawDeletes.step, updateVideo_eq_some] at h <;>
      grind [Effect.auditLogs, auditActions]
  | initiate req pc =>
    cases pc <;> simp only [turn, InitiateUpload.step, InitiateUpload.deny] at h <;>
      grind [Effect.auditLogs, auditActions]
  | complete req pc =>
    cases pc <;> simp only [turn, CompleteUpload.step, Table.locate_eq_some] at h <;>
      grind [Effect.auditLogs, auditActions]
  | cancelUpload v pc =>
    cases pc <;> simp only [turn, CancelUpload.step, Table.locate_eq_some] at h <;>
      grind [Effect.auditLogs, auditActions]
  | deleteFailed v pc =>
    cases pc <;> simp only [turn, DeleteFailedVideo.step, Table.locate_eq_some] at h
    case cleanStorage r handle rest failures =>
      cases handle <;> grind [Effect.auditLogs, DeleteFailedVideo.remove]
    all_goals grind [Effect.auditLogs, auditActions]
  | cancelProcessing v u pc =>
    cases pc <;> simp only [turn, CancelProcessing.step, Table.locate_eq_some] at h <;>
      grind [Effect.auditLogs, auditActions]
  | requeueProcessing v pc =>
    cases pc <;> simp only [turn, RequeueProcessing.step, Table.locate_eq_some] at h <;>
      grind [Effect.auditLogs, auditActions]
  | client v o =>
    simp only [turn] at h
    grind [Effect.auditLogs]
  | clock =>
    simp only [turn] at h
    grind [Effect.auditLogs]
  | done => cases h

/-- The audit rows after a turn. -/
theorem auditLogs_apply : (w.apply pid f).auditLogs =
    w.auditLogs ++ f.auditLogs.map fun e => AuditLog.mk e.1 e.2 pid := by
  cases f <;> simp [World.apply, World.commit, Effect.auditLogs, World.draw, World.setObject,
    World.setMultipart]

end NextBallUp
