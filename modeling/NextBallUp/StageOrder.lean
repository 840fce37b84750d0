import NextBallUp.Orphans

/-!
# The order of the stages

A stage of the CV pipeline is queued by the transaction that completes the stage before it.
`execute_cv_stage` ignores whether `complete_job` has matched a row, and audits the completion and
queues the next stage in either case. So the order of the stages, and the truth of the audit, rest
on the job being RUNNING still when its execution comes to complete it, which stale recovery and the
hook of a second delivery do not respect.

## Main definitions

* `World.StagesInOrder`: no stage is queued before the one upstream is completed
* `AuditsCompletions`: a turn audits the completion of a job only if it completes it
* `KeepsOrder`: the condition on a turn

## Main results

* `auditsCompletions_iff`: in every run, a turn audits only completions if and only if an execution
  that completes its job finds it RUNNING
* `stagesInOrder_of_reach`: **in every run of turns that satisfy the condition, the stages are in
  order and every turn audits only completions**
* `exists_not_stagesInOrder`: a stage that has been recovered as stale completes and queues the next
-/

namespace NextBallUp

variable {S : Settings} {w w' : World} {pid : Pid} {a : Answer} {p p' : Proc} {f : Effect}

/-- Where there is a job of a stage, the job of the stage upstream is COMPLETED. -/
def World.StagesInOrder (w : World) : Prop :=
  ∀ j r upstream, w.jobs.row j = some r → j.stage.upstream = some upstream →
    ∃ r', w.jobs.row ⟨j.videoId, upstream⟩ = some r' ∧ r'.status = .completed

/-- A turn from `w` to `w'` audits the completion of a job only if it moves it from RUNNING to
COMPLETED. -/
def AuditsCompletions (w w' : World) (f : Effect) : Prop :=
  ∀ j, (AuditAction.videoProcessingCompleted, Resource.job j) ∈ f.auditLogs →
    ∃ r r', w.jobs.row j = some r ∧ r.status = .running ∧
      w'.jobs.row j = some r' ∧ r'.status = .completed

/-- The job is RUNNING. -/
def World.isRunning (w : World) (j : JobId) : Bool :=
  (w.jobs.row j).any fun r => r.status = .running

/-- An execution of a CV stage that comes to complete its job finds it RUNNING, unless the next
stage cannot be queued because the video has been deleted. -/
def CompletesRunning (S : Settings) (c : State) (i : Pid) (a : Answer) : Prop :=
  a.isError ∨ match c.procs i with
  | .cvStage e (.completeJob _) => c.world.isRunning e.job ∨
    queueNextStage S c.world e.job.videoId e.job.stage ≠ [] ∧
      c.world.videos.row e.job.videoId = none
  | _ => True

/-- The condition on a turn. Moreover, a cancellation does not overwrite a job that has been
completed since it was loaded. -/
def KeepsOrder (S : Settings) (c : State) (i : Pid) (a : Answer) : Prop :=
  CompletesRunning S c i a ∧
    ∀ v userId video loaded row,
      c.procs i = .cancelProcessing v userId (.setFailed video loaded row) →
        a.isError ∨ row.status ≠ .completed

theorem ProcessingJobStage.next_eq_some_iff {s t : ProcessingJobStage} :
    s.next = some t ↔ t.upstream = some s := by
  cases s <;> cases t <;> decide

theorem World.isRunning_iff {j : JobId} :
    w.isRunning j ↔ ∃ r, w.jobs.row j = some r ∧ r.status = .running := by
  simp [isRunning, Option.any_eq_true]

/-! ### Completions -/

/-- The row of a job that a commit writes first, and queues no other job over. -/
theorem row_commit_cons {j : JobId} {x : ProcessingJob} {v : VideoId} {s : ProcessingJobStage}
    {videos : List (VideoId × Video)} {log : List (AuditAction × Resource)}
    (hr : w.jobs.row j ≠ none) :
    (w.apply pid (.commit {
      videos := videos
      jobs := (j, x) :: queueNextStage S w v s
      auditLogs := log })).jobs.row j = some x := by
  have hne : ∀ e ∈ queueNextStage S w v s, j ≠ e.1 := by
    rintro e he rfl
    exact hr (of_mem_queueNextStage he).2.1
  simp [World.apply, Table.row_putAll_of_ne hne, Table.row_put]

theorem mem_queuedAudits {jobs : List (JobId × ProcessingJob)} {j : JobId}
    (h : (AuditAction.videoProcessingCompleted, Resource.job j) ∈ queuedAudits jobs) : False := by
  simp [queuedAudits] at h

/-- What the last turn of a CV stage does. -/
theorem ExecuteCvStage.step_completeJob {e : Execution} {b : Bool}
    (h : (Proc.cvStage e (.completeJob b)).turn S pid a w = some (p, f)) :
    (queueNextStage S w e.job.videoId e.job.stage ≠ [] ∧ w.videos.row e.job.videoId = none ∧
      f = .commit {}) ∨
    ¬ (queueNextStage S w e.job.videoId e.job.stage ≠ [] ∧ w.videos.row e.job.videoId = none) ∧
      ∃ o, w.jobs.Located pid e.job (·.isActive none) o ∧ f = .commit {
        jobs := (o.map fun r => (e.job,
          (NextBallUp.completeJob none (stageMetadata e.job.stage b) w.now).set r)).toList ++
          queueNextStage S w e.job.videoId e.job.stage
        auditLogs := (.videoProcessingCompleted, .job e.job) ::
          queuedAudits (queueNextStage S w e.job.videoId e.job.stage) } := by
  simp only [Proc.turn, step] at h
  split at h
  · next hq =>
    cases h
    exact .inl ⟨hq.1, hq.2, rfl⟩
  · next hq =>
    obtain ⟨o, ho, he⟩ := Table.locate_eq_some.mp h
    cases he
    exact .inr ⟨hq, o, ho, rfl⟩

theorem ProcessingJob.isActive_none {r : ProcessingJob} :
    r.isActive none ↔ r.status = .running := by
  simp [isActive]

/-- A job that a CV stage completes. -/
theorem located_of_isRunning {j : JobId} {o : Option ProcessingJob}
    (ho : w.jobs.Located pid j (·.isActive none) o) (hr : w.isRunning j) :
    ∃ r, o = some r ∧ w.jobs.row j = some r ∧ r.status = .running := by
  obtain ⟨r, hrow, hrun⟩ := World.isRunning_iff.mp hr
  cases ho with
  | miss hm => exact absurd (ProcessingJob.isActive_none.mpr hrun) (by simp [hm r hrow])
  | hit hrow' => exact ⟨_, rfl, hrow', by cases hrow.symm.trans hrow'; exact hrun⟩

section Step

variable {c : State} {i : Pid}

/-- What the last turn of a transcode does. -/
theorem ExecuteTranscode.step_setProcessed {e : Execution} {job completed : ProcessingJob}
    (h : (Proc.transcode e (.setProcessed job completed)).turn S pid a w = some (p, f)) :
    ∃ videos queued, (queued = [] ∨ queued = queueNextStage S w e.job.videoId .transcode) ∧
      f = .commit {
        videos := videos
        jobs := (e.job, completed) :: queued
        auditLogs := (.videoProcessingCompleted, .job e.job) :: queuedAudits queued } := by
  simp only [Proc.turn, step, updateVideo_eq_some] at h
  obtain ⟨o, -, he⟩ := h
  cases he
  refine ⟨_, _, ?_, rfl⟩
  split
  · exact .inl rfl
  · exact .inr rfl

/-- Only two turns audit a completion. -/
theorem Proc.of_audits_completed {j : JobId} (hs : p.step S pid a w = some (p', f))
    (hj : (AuditAction.videoProcessingCompleted, Resource.job j) ∈ f.auditLogs) :
    a.isError = false ∧ ((∃ e job completed, p = .transcode e (.setProcessed job completed)) ∨
      ∃ e b, p = .cvStage e (.completeJob b)) := by
  by_cases ha : a.isError = true
  · obtain ⟨message, rfl⟩ := Answer.isError_iff.mp ha
    obtain ⟨-, rfl⟩ := Proc.step_error.mp hs
    cases hj
  have hact := Proc.step_audits hs hj
  rw [Bool.not_eq_true] at ha
  refine ⟨ha, ?_⟩
  rw [Proc.step_of_not_error (Answer.ne_error ha)] at hs
  cases p with
  | transcode e pc =>
    cases pc with
    | setProcessed => exact .inl ⟨_, _, _, rfl⟩
    | _ =>
      simp only [turn, ExecuteTranscode.step, ExecuteTranscode.raise, ExecuteTranscode.heartbeat,
        updateJob_eq_some, updateVideo_eq_some, lockAndSetJob_eq_some, Table.locate_eq_some] at hs
      grind [Effect.auditLogs, updateJob_eq_some]
  | cvStage e pc =>
    cases pc with
    | completeJob => exact .inr ⟨_, _, rfl⟩
    | _ =>
      simp only [turn, ExecuteCvStage.step, updateJob_eq_some] at hs
      grind [Effect.auditLogs]
  | _ => simp [auditActions] at hact

/-- **In every run, a turn audits only completions if and only if an execution that completes its
job finds it RUNNING.** -/
theorem auditsCompletions_iff (hsound : c.Sound S)
    (hs : (c.procs i).step S i a c.world = some (p, f)) :
    AuditsCompletions c.world (c.world.apply i f) f ↔ CompletesRunning S c i a := by
  constructor
  · intro h
    by_cases ha : a.isError = true
    · exact .inl ha
    refine .inr ?_
    split
    · next e b hp =>
      rw [hp, Proc.step_of_not_error (Answer.ne_error (by simpa using ha))] at hs
      rcases ExecuteCvStage.step_completeJob hs with ⟨hq, hv, -⟩ | ⟨-, o, ho, rfl⟩
      · exact .inr ⟨hq, hv⟩
      · obtain ⟨r, -, hr, hrun, -⟩ := h e.job (List.mem_cons_self ..)
        exact .inl (World.isRunning_iff.mpr ⟨r, hr, hrun⟩)
    · trivial
  · intro hok j hj
    obtain ⟨ha, ⟨e, job, completed, hp⟩ | ⟨e, b, hp⟩⟩ := Proc.of_audits_completed hs hj
    · have hh := hsound.holds i
      rw [hp] at hs hh
      rw [Proc.step_of_not_error (Answer.ne_error ha)] at hs
      obtain ⟨videos, queued, hq, rfl⟩ := ExecuteTranscode.step_setProcessed hs
      rcases List.mem_cons.mp hj with hj | hj
      · obtain rfl : j = e.job := by simpa using hj
        refine ⟨job, completed, hh.1.2, hh.2.running, ?_, hh.2.completed⟩
        rcases hq with rfl | rfl
        · simp [World.apply, Table.row_put]
        · exact row_commit_cons (by simp [hh.1.2])
      · exact (mem_queuedAudits hj).elim
    · have hok := hok.resolve_left (by simp [ha])
      rw [hp] at hs hok
      rw [Proc.step_of_not_error (Answer.ne_error ha)] at hs
      rcases ExecuteCvStage.step_completeJob hs with ⟨-, -, rfl⟩ | ⟨hn, o, ho, rfl⟩
      · cases hj
      · rcases List.mem_cons.mp hj with hj | hj
        · obtain rfl : j = e.job := by simpa using hj
          rcases hok with hok | hq
          · obtain ⟨r, rfl, hr, hrun⟩ := located_of_isRunning ho hok
            exact ⟨r, _, hr, hrun, row_commit_cons (by simp [hr]), rfl⟩
          · exact (hn hq).elim
        · exact (mem_queuedAudits hj).elim

/-! ### The order -/

/-- A COMPLETED job stays so until its video is deleted. -/
theorem JobMove.completed {j : JobId} {r : ProcessingJob} {o' : Option ProcessingJob}
    (h : JobMove w p j (some r) o') (hr : r.status = .completed)
    (hcancel : ∀ v userId video loaded row,
      p = .cancelProcessing v userId (.setFailed video loaded row) → row.status ≠ .completed)
    (hrequeue : ∀ v video loaded row,
      p = .requeueProcessing v (.setPending video loaded row) → loaded = row) :
    (∃ r', o' = some r' ∧ r'.status = .completed) ∨
      ∃ video account net, p = .deleteFailed j.videoId (.release video account net) := by
  cases h with
  | keep => exact .inl ⟨r, rfl, hr⟩
  | delete hp => exact .inr ⟨_, _, _, hp⟩
  | claim _ _ h | record _ h => cases hr.symm.trans h
  | heartbeat => exact .inl ⟨_, rfl, hr⟩
  | complete _ _ h | completeStage _ _ h => cases hr.symm.trans h.running
  | release _ _ h => cases hr.symm.trans h.running
  | fail _ _ h | failStage _ _ h | hookFail _ _ h | recoverFail _ _ h =>
    rcases h.open with h | h <;> cases hr.symm.trans h
  | cancelProcessing hp => exact (hcancel _ _ _ _ _ hp hr).elim
  | requeueProcessing hp _ h =>
    rw [hrequeue _ _ _ _ hp] at h
    cases hr.symm.trans h

/-- A stage is queued by the turn that completes the one upstream. -/
theorem completed_of_queues {j : JobId} {upstream : ProcessingJobStage} (hsound : c.Sound S)
    (hok : CompletesRunning S c i a) (ha : a.isError = false)
    (hs : (c.procs i).step S i a c.world = some (p, f)) (hq : (c.procs i).queues j)
    (hup : j.stage.upstream = some upstream)
    (hr : c.world.jobs.row j = none) (hr' : (c.world.apply i f).jobs.row j ≠ none) :
    ∃ r', (c.world.apply i f).jobs.row ⟨j.videoId, upstream⟩ = some r' ∧
      r'.status = .completed := by
  obtain ⟨e, hv, ⟨⟨job, completed, hp⟩, hn⟩ | ⟨⟨b, hp⟩, hn⟩⟩ := hq
  · have hh := hsound.holds i
    have hstage := hsound.routed i
    rw [hp] at hs hh hstage
    rw [Proc.step_of_not_error (Answer.ne_error ha)] at hs
    obtain ⟨videos, queued, hqueued, rfl⟩ := ExecuteTranscode.step_setProcessed hs
    have hj : (⟨j.videoId, upstream⟩ : JobId) = e.job := by
      rw [ProcessingJobStage.next_eq_some_iff, hup] at hn
      rw [← transcodeJob_videoId hstage, hv, Option.some.inj hn, transcodeJob]
    rw [hj]
    refine ⟨completed, ?_, hh.2.completed⟩
    rcases hqueued with rfl | rfl
    · simp [World.apply, Table.row_put]
    · exact row_commit_cons (by simp [hh.1.2])
  · have hok := hok.resolve_left (by simp [ha])
    rw [hp] at hs hok
    rw [Proc.step_of_not_error (Answer.ne_error ha)] at hs
    have hj : (⟨j.videoId, upstream⟩ : JobId) = e.job := by
      rw [ProcessingJobStage.next_eq_some_iff, hup] at hn
      obtain ⟨v, s⟩ := e
      rw [← hv, Option.some.inj hn]
    rw [hj]
    rcases ExecuteCvStage.step_completeJob hs with ⟨-, -, rfl⟩ | ⟨hne, o, ho, rfl⟩
    · exact (hr' (by simpa [World.apply] using hr)).elim
    · rcases hok with hok | hq
      · obtain ⟨r, rfl, hrow, -⟩ := located_of_isRunning ho hok
        exact ⟨_, row_commit_cons (by simp [hrow]), rfl⟩
      · exact (hne hq).elim

theorem World.StagesInOrder.after (h : c.world.StagesInOrder) (hsound : c.Sound S)
    (hok : KeepsOrder S c i a) (hs : (c.procs i).step S i a c.world = some (p, f))
    (hloaded : ∀ v pc, c.procs i = .requeueProcessing v pc →
      RequeueProcessing.Loaded v c.world pc) : (c.world.apply i f).StagesInOrder := by
  by_cases ha : a.isError = true
  · obtain ⟨message, rfl⟩ := Answer.isError_iff.mp ha
    obtain ⟨-, rfl⟩ := Proc.step_error.mp hs
    intro j r upstream hr hup
    obtain ⟨r', hr', hc⟩ := h j r upstream (by simpa [World.apply] using hr) hup
    exact ⟨r', by simpa [World.apply] using hr', hc⟩
  rw [Bool.not_eq_true] at ha
  intro j r upstream hr hup
  -- The job upstream was COMPLETED before the turn or is completed by it, and stays so.
  have stays {x : ProcessingJob} (hx : c.world.jobs.row ⟨j.videoId, upstream⟩ = some x)
      (hc : x.status = .completed) :
      ∃ r', (c.world.apply i f).jobs.row ⟨j.videoId, upstream⟩ = some r' ∧
        r'.status = .completed := by
    have hm := Proc.jobMove (hsound.holds i) hs ⟨j.videoId, upstream⟩
    rw [hx] at hm
    rcases hm.completed hc (fun v userId video loaded row hp =>
        (hok.2 v userId video loaded row hp).resolve_left (by simp [ha]))
      (fun v video loaded row hp => hloaded v _ hp) with h | ⟨video, account, net, hp⟩
    · exact h
    · rw [hp] at hs
      rcases rows_deleted hs with he | ⟨-, he⟩
      · exact ⟨x, by rw [he, hx], hc⟩
      · rw [he j, if_pos rfl] at hr
        cases hr
  have hm := Proc.jobMove (hsound.holds i) hs j
  cases hrow : c.world.jobs.row j with
  | some x =>
    obtain ⟨r', hr', hc⟩ := h j x upstream hrow hup
    exact stays hr' hc
  | none =>
    have hne : (c.world.apply i f).jobs.row j ≠ none := by simp [hr]
    rw [hrow, hr] at hm
    cases hm with
    | insert hq =>
      rcases hq with ⟨req, video, -, hj⟩ | hq
      · rw [hj] at hup
        cases hup
      · exact completed_of_queues hsound hok.1 ha hs hq hup hrow hne

end Step

theorem world_inOrder_of_reach {c : State} (h : (system S).Reach Deployed (KeepsOrder S) c) :
    c.world.StagesInOrder := by
  refine invariant_of_reach (Q := fun c => c.world.StagesInOrder) ?_ ?_ h
  · rintro c ⟨⟨accounts, links, hw⟩, -⟩ j r upstream hr
    rw [hw] at hr
    cases hr
  · intro c i a p f hreach hc hok hs
    exact hc.after (sound_of_reach hreach) hok hs fun v pc hp => loaded_of_reach hreach hp

/-- **In every run of turns that satisfy the condition, the stages are in order, and every turn
audits only completions.** -/
theorem stagesInOrder_of_reach {c : State} (h : (system S).Reach Deployed (KeepsOrder S) c) :
    c.world.StagesInOrder ∧ ∀ i a p f, KeepsOrder S c i a →
      (c.procs i).step S i a c.world = some (p, f) →
      AuditsCompletions c.world (c.world.apply i f) f :=
  ⟨world_inOrder_of_reach h, fun _ _ _ _ hok hs =>
    (auditsCompletions_iff (sound_of_reach h) hs).mpr hok.1⟩

/-! ### Given runs -/

/-- The default settings, with the pipeline enabled. -/
def Settings.withCvPipeline : Settings := { Settings.default with cvPipelineEnabled := true }

/-- The turns after which the first video is transcoded, and process 7 is about to complete its
detection. Process 6 dispatches it. -/
def detectionTurns : List (Pid × Answer) :=
  deliveryTurns ++ turns 5 8 ++ [(5, .output 9 4)] ++ turns 5 8 ++
    [(3, .seconds 5), (6, .jobs [⟨0, .detection⟩])] ++ turns 6 2 ++ [(7, .deliver 0 false)] ++
    turns 7 8

/-- The tracking of the first video is queued, and its detection has this status. -/
def World.tracks (w : World) (status : ProcessingJobStatus) : Bool :=
  (w.jobs.row ⟨0, .tracking⟩).isSome && (w.jobs.row ⟨0, .detection⟩).any fun r => r.status = status

/-- A check that implies the condition where nothing is cancelled. -/
def State.completesRunning (c : State) (i : Pid) (_ : Answer) : Bool :=
  match c.procs i with
  | .cvStage e (.completeJob _) => c.world.isRunning e.job
  | .cancelProcessing .. => false
  | _ => true

theorem keepsOrder_of_completesRunning {c : State} {i : Pid}
    (h : c.completesRunning i a = true) : KeepsOrder S c i a := by
  unfold State.completesRunning at h
  refine ⟨.inr ?_, fun v userId video loaded row hp => by simp [hp] at h⟩
  split
  · next hp =>
    rw [hp] at h
    exact .inl h
  · trivial

/-- The detection is completed, and the tracking queued. -/
theorem exists_stagesInOrder :
    ∃ c : State, (system .withCvPipeline).Reach Deployed (KeepsOrder .withCvPipeline) c ∧
      c.world.tracks .completed ∧ c.world.StagesInOrder := by
  obtain ⟨c, hc, hd⟩ := exists_reach_of_check (S := .withCvPipeline) State.completesRunning
    (fun _ _ _ _ => keepsOrder_of_completesRunning)
    (deployed_oneUpload [.clock, .dispatch .select, .worker, .dispatch .select, .worker]
      (by simp [Proc.IsFresh]))
    (bounded_oneUpload [.clock, .dispatch .select, .worker, .dispatch .select, .worker])
    (detectionTurns ++ turns 7 1) (fun c : State => c.world.tracks .completed) (by decide +kernel)
  exact ⟨c, hc, hd, (stagesInOrder_of_reach hc).1⟩

/-- The worker of the detection pauses, and a recovery pass fails its job. The detection goes on,
completes nothing, and queues the tracking. -/
theorem exists_not_stagesInOrder :
    ∃ c : State, (system .withCvPipeline).Reach Deployed Machine.Always c ∧
      ¬ c.world.StagesInOrder := by
  obtain ⟨c, hc, hd⟩ := Machine.exists_reach_of_exec (system .withCvPipeline) Machine.Always
    (deployed_oneUpload [.clock, .dispatch .select, .worker, .dispatch .select, .worker,
      .recover .select] (by simp [Proc.IsFresh]))
    (detectionTurns ++ [(3, .seconds 400), (8, .jobs [⟨0, .detection⟩])] ++ turns 8 2 ++ turns 7 1)
    (fun c : State => c.world.tracks .failed) (by decide +kernel)
  refine ⟨c, hc, fun h => ?_⟩
  simp only [World.tracks, Bool.and_eq_true, Option.isSome_iff_exists, Option.any_eq_true,
    decide_eq_true_eq] at hd
  obtain ⟨⟨x, hx⟩, r, hr, hs⟩ := hd
  obtain ⟨r', hr', hs'⟩ := h _ x .detection hx rfl
  cases hr.symm.trans hr'
  cases hs.symm.trans hs'

end NextBallUp
