import NextBallUp.Ledger

/-!
# Late writes

A job belongs to the task that has claimed it, until it is requeued. An execution may outlive its
claim: a coach cancels the job and requeues it, and another task claims it. "Late worker writes are
ignored by celery_task_id ownership checks" is what the cancellation relies on. This module says
exactly which late writes are not ignored: those of the failure handler, which checks the ownership
in a statement of its own before it writes, those of the `on_failure` hook, which does not check it
at all, and the first write to the video after a claim.

## Main definitions

* `ProcessingJob.owner`: the task that has claimed the job since it was last requeued
* `LeavesOwned`: a turn changes nothing of a job that another task owns, nor the status of its video
* `RespectsOwner`: the condition on a turn

## Main results

* `claimed_of_reach`: an execution of a later stage always owns its job
* `leavesOwned_iff`: **in every run, a turn leaves owned jobs alone if and only if it satisfies the
  condition**
* `exists_not_leavesOwned`: a cancelled task releases the job of the task that replaced it
-/

namespace NextBallUp

variable {S : Settings} {w w' : World} {pid : Pid} {a : Answer} {p p' : Proc} {f : Effect}

/-- The task that has claimed the job since it was last requeued. -/
def ProcessingJob.owner (r : ProcessingJob) : Option TaskId :=
  if r.startedAt.isSome then r.celeryTaskId else none

/-- What a late write must not change. -/
def ProcessingJob.work (r : ProcessingJob) : ProcessingJobStatus × ℕ × Option Metadata :=
  (r.status, r.progressPercent, r.resultMetadata)

/-- Another task owns the job of the execution. -/
def World.ownedByOther (w : World) (e : Execution) : Bool :=
  (w.jobs.row e.job).any fun r => r.owner.any fun t => t ≠ e.taskId

/-- The execution on whose behalf the process takes its turn, unless that is the claim itself. -/
def Proc.writer : Proc → Option Execution
  | .transcode _ .claimJob | .cvStage _ .claimJob => none
  | .transcode e _ | .cvStage e _ | .onFailure e _ _ _ => some e
  | _ => none

/-- The turn of process `i`, after which the world is `w'`, changes nothing of a job that another
task owns, nor the status of its video. -/
def LeavesOwned (c : State) (i : Pid) (w' : World) : Prop :=
  ∀ e, (c.procs i).writer = some e → c.world.ownedByOther e →
    (w'.jobs.row e.job).map ProcessingJob.work =
        (c.world.jobs.row e.job).map ProcessingJob.work ∧
      (w'.videos.row e.job.videoId).map Video.status =
        (c.world.videos.row e.job.videoId).map Video.status

/-- The video has this status. -/
def World.videoIs (w : World) (v : VideoId) (status : VideoStatus) : Bool :=
  (w.videos.row v).any fun r => r.status = status

/-- What a process that is about to end a transaction has not done, and will not find. -/
def Proc.spares (w : World) : Proc → Bool
  | .transcode e .setProcessing => !w.videoIs e.job.videoId .queued
  | .transcode e (.setQueued _ job) => job.isNone && !w.videoIs e.job.videoId .processing
  | .transcode e (.setFailed job) => job.isNone &&
    !(w.videoIs e.job.videoId .processing || w.videoIs e.job.videoId .queued)
  | .onFailure _ _ _ (.setFailed job) => job.isNone
  | _ => true

/-- The condition on a turn. If another task owns the job, the failure handler and the hook have
not matched its row, and the status that the handler, or the beginning of a transcode, sets next
is not one that the video would take. -/
def RespectsOwner (c : State) (i : Pid) (a : Answer) : Prop :=
  a.isError ∨ ∀ e, (c.procs i).writer = some e → c.world.ownedByOther e →
    (c.procs i).spares c.world

theorem World.ownedByOther_iff {e : Execution} : w.ownedByOther e ↔
    ∃ r t, w.jobs.row e.job = some r ∧ r.startedAt.isSome ∧ r.celeryTaskId = some t ∧
      t ≠ e.taskId := by
  simp only [ownedByOther, Option.any_eq_true, decide_eq_true_eq, ProcessingJob.owner]
  constructor
  · rintro ⟨r, hr, t, ht, hne⟩
    split at ht
    · next hs => exact ⟨r, t, hr, hs, ht, hne⟩
    · cases ht
  · rintro ⟨r, t, hr, hs, ht, hne⟩
    exact ⟨r, hr, t, by rw [if_pos hs, ht], hne⟩

/-- What an execution has claimed, another task does not own. -/
theorem World.not_ownedByOther {e : Execution} {r : ProcessingJob} (hr : w.jobs.row e.job = some r)
    (ht : r.celeryTaskId = some e.taskId) : ¬ w.ownedByOther e := by
  rw [World.ownedByOther_iff]
  rintro ⟨r', t, hr', -, ht', hne⟩
  cases hr.symm.trans hr'
  exact hne (Option.some.inj (ht'.symm.trans ht))

theorem World.videoIs_iff {v : VideoId} {status : VideoStatus} :
    w.videoIs v status ↔ ∃ r, w.videos.row v = some r ∧ r.status = status := by
  simp [videoIs, Option.any_eq_true]

/-! ### Executions of later stages -/

/-- The execution is past its claim. -/
def ExecuteCvStage.isClaimed : ExecuteCvStage.Pc → Bool
  | .loadJob | .claimJob => false
  | _ => true

/-- The job is no longer PENDING, and under the task id of the execution; or it is gone together
with its video. -/
def State.Claimed (c : State) (e : Execution) : Prop :=
  (∃ r, c.world.jobs.row e.job = some r ∧ r.status ≠ .pending ∧
    r.celeryTaskId = some e.taskId) ∨ c.Gone e.job

theorem IsCompletion.owned {t : TaskId} {r r' : ProcessingJob} (h : IsCompletion (some t) r r') :
    r.celeryTaskId = some t := by
  obtain ⟨_, _, hc, -⟩ := h
  exact (ProcessingJob.isActive_some.mp hc).2

theorem IsFailure.celeryTaskId {r r' : ProcessingJob} (h : IsFailure r r') :
    r'.celeryTaskId = r.celeryTaskId := by
  obtain ⟨_, _, _, _, -, rfl⟩ := h
  rfl

theorem IsCompletion.celeryTaskId {t : Option TaskId} {r r' : ProcessingJob}
    (h : IsCompletion t r r') : r'.celeryTaskId = r.celeryTaskId := by
  obtain ⟨_, _, -, rfl⟩ := h
  rfl

/-- An execution comes past its claim by claiming. -/
theorem ExecuteCvStage.step_isClaimed {e : Execution} {pc pc' : Pc} (hj : e.job.stage ≠ .transcode)
    (h : step S pid e w a pc = some (.cvStage e pc', f)) (hc : isClaimed pc') :
    isClaimed pc ∨ ∃ r, (w.apply pid f).jobs.row e.job = some r ∧ r.status ≠ .pending ∧
      r.celeryTaskId = some e.taskId := by
  cases pc with
  | loadJob =>
    have hup : e.job.stage.upstream ≠ none := ProcessingJobStage.upstream_ne_none hj
    simp only [step, hup, if_false] at h
    split at h <;> cases h
    cases hc
  | claimJob =>
    simp only [step, updateJob_eq_some] at h
    obtain ⟨o, ho, he⟩ := h
    cases ho with
    | miss => cases he
    | @hit r =>
      cases he
      exact .inr ⟨(NextBallUp.claimJob e.taskId w.now).set r,
        by simp [World.apply, Table.row_put], by simp [NextBallUp.claimJob], rfl⟩
  | _ => exact .inl rfl

/-- A job of a later stage that has been claimed stays with its task. -/
theorem JobMove.claimed {j : JobId} {r r' : ProcessingJob} (h : JobMove w p j (some r) (some r'))
    (hp : p.Routed) (hj : j.stage ≠ .transcode) (hr : r.status ≠ .pending) :
    r'.status ≠ .pending ∧ r'.celeryTaskId = r.celeryTaskId := by
  cases h with
  | keep | heartbeat => exact ⟨hr, rfl⟩
  | claim _ _ hs | record _ hs => exact (hr hs).elim
  | complete _ _ hx | completeStage _ _ hx => exact ⟨by simp [hx.completed], hx.celeryTaskId⟩
  | fail _ _ hx | failStage _ _ hx | hookFail _ _ hx | recoverFail _ _ hx =>
    exact ⟨by simp [hx.failed], hx.celeryTaskId⟩
  | release hp' he =>
    rw [hp'] at hp
    exact (hj (he ▸ hp)).elim
  | cancelProcessing _ he | requeueProcessing _ he =>
    rw [← he] at hj
    exact (hj rfl).elim

section Step

variable {c : State} {i : Pid}

theorem State.Claimed.after {e : Execution} (h : c.Claimed e) (hj : e.job.stage ≠ .transcode)
    (hsound : c.Sound S) (hid : c.Identified)
    (hs : (c.procs i).step S i a c.world = some (p, f)) : (c.after i p f).Claimed e := by
  rcases h with ⟨r, hr, hst, ht⟩ | hgone
  · cases hr' : (c.after i p f).world.jobs.row e.job with
    | none => exact .inr (State.gone_after_delete hsound hid hs (by simp [hr]) hr')
    | some r' =>
      have hm := Proc.jobMove (hsound.holds i) hs e.job
      rw [hr, ← State.world_after c i p f, hr'] at hm
      obtain ⟨hst', ht'⟩ := hm.claimed (hsound.routed i) hj hst
      exact .inl ⟨r', hr', hst', ht'.trans ht⟩
  · exact .inr (hgone.after hsound hs)

end Step

/-- **An execution of a later stage that is past its claim owns its job**, as long as there is
one. -/
theorem claimed_of_reach {ok : State → Pid → Answer → Prop} {c : State}
    (h : (system S).Reach Deployed ok c) {i : Pid} {e : Execution} {pc : ExecuteCvStage.Pc}
    (hp : c.procs i = .cvStage e pc) (hpc : ExecuteCvStage.isClaimed pc) : c.Claimed e := by
  refine invariant_of_reach (Q := fun c => ∀ i e pc, c.procs i = .cvStage e pc →
    ExecuteCvStage.isClaimed pc → c.Claimed e) ?_ ?_ h i e pc hp hpc
  · rintro c ⟨-, hf⟩ i e pc hp
    exact ((hp ▸ hf i : (Proc.cvStage e pc).IsFresh)).elim
  · intro c i a p f hreach hc _ hs j e pc hp hpc
    have hsound := sound_of_reach hreach
    have after {pc₀} (hp₀ : c.procs j = .cvStage e pc₀) (hpc₀ : ExecuteCvStage.isClaimed pc₀) :
        (c.after i p f).Claimed e := by
      have hstage := hsound.routed j
      rw [hp₀] at hstage
      exact (hc j e pc₀ hp₀ hpc₀).after hstage hsound (identified_of_reach hreach) hs
    by_cases hj : j = i
    · subst hj
      rw [State.procs_after] at hp
      subst hp
      rcases Proc.step_origin hs with ⟨-, rfl⟩ | ⟨pc₀, hp₀, hs₀⟩
      · cases hpc
      · have hstage := hsound.routed j
        rw [hp₀] at hstage
        rcases ExecuteCvStage.step_isClaimed hstage hs₀ hpc with hpc₀ | hrow
        · exact after hp₀ hpc₀
        · exact .inl hrow
    · rw [State.procs_after_of_ne _ _ _ _ hj] at hp
      exact after hp hpc

/-! ### Late writes -/

/-- The row that an `UPDATE videos` leaves. -/
theorem row_of_updateVideo {v : VideoId} {u : Update Video} {jobs : List (JobId × ProcessingJob)}
    {log : List (AuditAction × Resource)} {next : Option Video → Proc} {r : Video}
    (h : updateVideo w pid v u jobs log next = some (p, f)) (hr : w.videos.row v = some r)
    (hc : u.cond r = true) : (w.apply pid f).videos.row v = some (u.set r) := by
  obtain ⟨o, ho, he⟩ := updateVideo_eq_some.mp h
  cases he
  cases ho with
  | miss hm => exact absurd hc (by simp [hm r hr])
  | hit hr' =>
    cases hr.symm.trans hr'
    simp [World.apply, Table.row_put]

/-- A job that is written together with the video. -/
theorem job_of_updateVideo {v : VideoId} {u : Update Video} {j : JobId} {x : ProcessingJob}
    {log : List (AuditAction × Resource)} {next : Option Video → Proc}
    (h : updateVideo w pid v u [(j, x)] log next = some (p, f)) :
    (w.apply pid f).jobs.row j = some x := by
  obtain ⟨o, -, he⟩ := updateVideo_eq_some.mp h
  cases he
  simp [World.apply, Table.row_put]

theorem Proc.writer_transcode {e e' : Execution} {pc : ExecuteTranscode.Pc}
    (h : (Proc.transcode e pc).writer = some e') : e = e' := by
  unfold writer at h
  split at h <;> simp_all

theorem Proc.writer_cvStage {e e' : Execution} {pc : ExecuteCvStage.Pc}
    (h : (Proc.cvStage e pc).writer = some e') : e = e' := by
  unfold writer at h
  split at h <;> simp_all

section Late

variable {c : State} {i : Pid} {e : Execution}

/-- A turn that spares the job of another task does not change it. -/
theorem job_of_spares (he : (c.procs i).writer = some e) (ho : c.world.ownedByOther e)
    (hsp : (c.procs i).spares c.world)
    (hclaimed : ∀ pc, c.procs i = .cvStage e pc → ExecuteCvStage.isClaimed pc → c.Claimed e)
    {o' : Option ProcessingJob}
    (hm : JobMove c.world (c.procs i) e.job (c.world.jobs.row e.job) o') :
    o' = c.world.jobs.row e.job := by
  obtain ⟨r, t, hr, -⟩ := World.ownedByOther_iff.mp ho
  have claimed {e' pc} (hp : c.procs i = .cvStage e' pc) (hpc : ExecuteCvStage.isClaimed pc) :
      o' = c.world.jobs.row e.job := by
    rw [hp] at he
    obtain rfl := Proc.writer_cvStage he
    rcases hclaimed pc hp hpc with ⟨r', hr', -, ht'⟩ | ⟨hn, -⟩
    · exact absurd ho (World.not_ownedByOther hr' ht')
    · cases hr.symm.trans hn
  have active {e' : Execution} {pc} (hp : c.procs i = .transcode e' pc)
      (ht : r.celeryTaskId = some e'.taskId) : o' = c.world.jobs.row e.job := by
    rw [hp] at he
    obtain rfl := Proc.writer_transcode he
    exact absurd ho (World.not_ownedByOther hr ht)
  rw [hr] at hm
  cases hm with
  | keep => exact hr.symm
  | delete hp | record hp | recoverFail hp | cancelProcessing hp | requeueProcessing hp =>
    rw [hp] at he
    cases he
  | claim hp =>
    rcases hp with hp | hp <;> rw [hp] at he <;> cases he
  | heartbeat hp _ hact =>
    rcases hp with ⟨pc, hp, rfl⟩ | ⟨hp | ⟨b, hp⟩, -⟩
    · exact active hp (ProcessingJob.isActive_some.mp hact).2
    · exact claimed hp rfl
    · exact claimed hp rfl
  | complete hp _ hx => exact active hp hx.owned
  | completeStage hp => exact claimed hp rfl
  | failStage hp => exact claimed hp rfl
  | release hp | fail hp | hookFail hp =>
    rw [hp] at hsp
    cases hsp

/-- Nor does it change the status of the video. -/
theorem video_of_spares (hsound : c.Sound S) (he : (c.procs i).writer = some e)
    (ho : c.world.ownedByOther e) (hsp : (c.procs i).spares c.world) {o' : Option Video}
    (hm : VideoMove S c.world (c.procs i) e.job.videoId (c.world.videos.row e.job.videoId) o') :
    o'.map Video.status = (c.world.videos.row e.job.videoId).map Video.status := by
  have same {e' : Execution} {pc} (hp : c.procs i = .transcode e' pc) : e' = e := by
    rw [hp] at he
    exact Proc.writer_transcode he
  generalize hrow : c.world.videos.row e.job.videoId = o at hm
  cases hm with
  | keep | materialize => rfl
  | insert hp | delete hp | recoverFailed hp | abandoned hp | raw hp | complete hp
  | cancelUpload hp | markFailed hp | cancelProcessing hp | requeueProcessing hp =>
    rw [hp] at he
    cases he
  | setProcessing hp _ hs =>
    obtain rfl := same hp
    rw [hp] at hsp
    rcases hs with hs | hs
    · simp [Proc.spares, World.videoIs, hrow, hs] at hsp
    · rw [Option.map_some, Option.map_some, hs]
  | @setProcessed e' job completed r hp =>
    obtain rfl := same hp
    have hh := hsound.holds i
    rw [hp] at hh
    exact absurd ho (World.not_ownedByOther hh.1.2 hh.2.owned)
  | setQueued hp _ hs =>
    obtain rfl := same hp
    rw [hp] at hsp
    rcases hs with hs | hs
    · simp [Proc.spares, World.videoIs, hrow, hs] at hsp
    · rw [Option.map_some, Option.map_some, hs]
  | setFailed hp _ hs =>
    obtain rfl := same hp
    rw [hp] at hsp
    rcases hs with hs | hs <;> simp [Proc.spares, World.videoIs, hrow, hs] at hsp
  | hookFailed hp =>
    rw [hp] at hsp
    cases hsp

/-- A turn that sets the status of the video finds one that it need not change. -/
theorem not_videoIs_of_updateVideo (status : VideoStatus) {v : VideoId} {u : Update Video}
    {jobs : List (JobId × ProcessingJob)} {log : List (AuditAction × Resource)}
    {next : Option Video → Proc} {status' : VideoStatus}
    (h : updateVideo w pid v u jobs log next = some (p, f))
    (hl : ((w.apply pid f).videos.row v).map Video.status = (w.videos.row v).map Video.status)
    (hc : ∀ r, r.status = status → u.cond r = true) (hset : ∀ r, (u.set r).status = status')
    (hne : status ≠ status') : w.videoIs v status = false := by
  rw [Bool.eq_false_iff, ne_eq, World.videoIs_iff]
  rintro ⟨r, hr, hs⟩
  rw [row_of_updateVideo h hr (hc r hs), hr, Option.map_some, Option.map_some, hset, hs] at hl
  exact hne (Option.some.inj hl).symm

/-- A turn that writes the job together with the video changes the status of the job. -/
theorem false_of_updateVideo {v : VideoId} {u : Update Video} {j : JobId} {r x : ProcessingJob}
    {log : List (AuditAction × Resource)} {next : Option Video → Proc}
    (h : updateVideo w pid v u [(j, x)] log next = some (p, f)) (hr : w.jobs.row j = some r)
    (hl : ((w.apply pid f).jobs.row j).map ProcessingJob.work =
      (w.jobs.row j).map ProcessingJob.work) (hne : x.status ≠ r.status) : False := by
  rw [job_of_updateVideo h, hr, Option.map_some, Option.map_some] at hl
  exact hne (congrArg Prod.fst (Option.some.inj hl))

/-- A turn that leaves the job of another task alone spares it. -/
theorem spares_of_leavesOwned (hsound : c.Sound S) (ha : ¬ a.isError)
    (hs : (c.procs i).step S i a c.world = some (p, f)) (he : (c.procs i).writer = some e)
    (ho : c.world.ownedByOther e) (hl : LeavesOwned c i (c.world.apply i f)) :
    (c.procs i).spares c.world := by
  obtain ⟨hjob, hvideo⟩ := hl e he ho
  rw [Proc.step_of_not_error fun m hm => ha (by rw [hm]; rfl)] at hs
  have hh := hsound.holds i
  generalize c.procs i = q at *
  cases q with
  | transcode e' pc =>
    obtain rfl := Proc.writer_transcode he
    cases pc with
    | setProcessing =>
      simp only [Proc.turn, ExecuteTranscode.step] at hs
      have := not_videoIs_of_updateVideo .queued hs hvideo
        (fun _ hr => by simp [setVideoStatus, hr]) (fun _ => rfl) (by simp)
      simp [Proc.spares, this]
    | setQueued err job =>
      simp only [Proc.turn, ExecuteTranscode.step] at hs
      cases job with
      | some x =>
        rw [Option.map_some, Option.toList_some] at hs
        exact (false_of_updateVideo hs hh.1.2 hjob (by simp [hh.2.pending, hh.2.running])).elim
      | none =>
        have := not_videoIs_of_updateVideo .processing hs hvideo
          (fun _ hr => by simp [setVideoStatus, hr]) (fun _ => rfl) (by simp)
        simp [Proc.spares, this]
    | setFailed job =>
      simp only [Proc.turn, ExecuteTranscode.step] at hs
      cases job with
      | some x =>
        rw [Option.map_some, Option.toList_some] at hs
        refine (false_of_updateVideo hs hh.1.2 hjob ?_).elim
        rcases hh.2.open with h | h <;> simp [hh.2.failed, h]
      | none =>
        have h₁ := not_videoIs_of_updateVideo .processing hs hvideo
          (fun _ hr => by simp [setVideoStatus, hr]) (fun _ => rfl) (by simp)
        have h₂ := not_videoIs_of_updateVideo .queued hs hvideo
          (fun _ hr => by simp [setVideoStatus, hr]) (fun _ => rfl) (by simp)
        simp [Proc.spares, h₁, h₂]
    | _ => rfl
  | onFailure e' err failVideo pc =>
    obtain rfl : e' = e := Option.some.inj he
    cases pc with
    | getJob | failJob => rfl
    | setFailed job =>
      cases job with
      | none => rfl
      | some x =>
        have hne : x.2.status ≠ x.1.status := by
          rcases hh.2.open with h | h <;> simp [hh.2.failed, h]
        cases failVideo with
        | true =>
          simp only [Proc.turn, TerminalFailure.step, Option.isSome_some, and_self, if_true,
            Option.map_some, Option.toList_some] at hs
          exact (false_of_updateVideo hs hh.1.2 hjob hne).elim
        | false =>
          simp only [Proc.turn, TerminalFailure.step] at hs
          cases hs
          rw [hh.1.2] at hjob
          simp only [World.apply, World.row_jobs_commit, List.not_mem_nil, if_false,
            Option.map_some, Option.toList_some, Table.putAll_cons, Table.putAll_nil,
            Table.row_put, if_true] at hjob
          exact (hne (congrArg Prod.fst (Option.some.inj hjob))).elim
  | _ => rfl

end Late

/-- **In every run, a turn leaves the jobs of other tasks alone if and only if it satisfies the
condition.** -/
theorem leavesOwned_iff {c : State} {i : Pid} (h : (system S).Reach Deployed Machine.Always c)
    (hs : (c.procs i).step S i a c.world = some (p, f)) :
    LeavesOwned c i (c.world.apply i f) ↔ RespectsOwner c i a := by
  have hsound := sound_of_reach h
  by_cases ha : a.isError = true
  · obtain ⟨message, rfl⟩ := Answer.isError_iff.mp ha
    obtain ⟨-, rfl⟩ := Proc.step_error.mp hs
    exact iff_of_true (fun e _ _ => by simp [World.apply]) (.inl ha)
  · constructor
    · exact fun hl => .inr fun e he ho => spares_of_leavesOwned hsound ha hs he ho hl
    · intro hok e he ho
      have hsp := hok.resolve_left ha e he ho
      refine ⟨congrArg _ (job_of_spares he ho hsp ?_ (Proc.jobMove (hsound.holds i) hs e.job)),
        video_of_spares hsound he ho hsp (Proc.videoMove (hsound.holds i) hs e.job.videoId)⟩
      exact fun pc hp hpc => claimed_of_reach h hp hpc

/-! ### Given runs -/

/-- A first task has begun the transcode of the first video and takes the given turns; then the
processing is cancelled and requeued, and a second task claims the job. -/
def replacedTurns (first : List (Pid × Answer)) : List (Pid × Answer) :=
  deliveryTurns ++ first ++ turns 6 4 ++ turns 7 5 ++ [(8, .jobs [transcodeJob 0])] ++ turns 8 2 ++
    [(9, .deliver 0 false)] ++ turns 9 3

/-- Process `i` can take a turn on behalf of a task while another one owns the job, and the turn
changes the job if `changes`. -/
def State.writesLate (c : State) (i : Pid) (changes : Bool) : Bool :=
  ((c.procs i).step .default i .ok c.world).any fun t => (c.procs i).writer.any fun e =>
    c.world.ownedByOther e &&
      ((!changes && (c.procs i).spares c.world) || changes &&
        ((c.world.apply i t.2).jobs.row e.job).map ProcessingJob.work ≠
          (c.world.jobs.row e.job).map ProcessingJob.work)

theorem State.exists_of_writesLate {c : State} {i : Pid} {changes : Bool}
    (h : c.writesLate i changes = true) :
    ∃ p f e, (c.procs i).step .default i .ok c.world = some (p, f) ∧
      (c.procs i).writer = some e ∧ c.world.ownedByOther e ∧
      (changes = false → (c.procs i).spares c.world) ∧
      (changes = true → ((c.world.apply i f).jobs.row e.job).map ProcessingJob.work ≠
        (c.world.jobs.row e.job).map ProcessingJob.work) := by
  simp only [writesLate, Option.any_eq_true, Bool.and_eq_true] at h
  obtain ⟨⟨p, f⟩, hs, e, he, ho, hc⟩ := h
  refine ⟨p, f, e, hs, he, ho, ?_, ?_⟩ <;> rintro rfl <;> simpa using hc

/-- The first task beats its heart after the second has claimed the job. -/
theorem exists_leavesOwned :
    ∃ c p f e, (system .default).Reach Deployed Machine.Always c ∧
      (c.procs 5).step .default 5 .ok c.world = some (p, f) ∧
      (c.procs 5).writer = some e ∧ c.world.ownedByOther e ∧
      LeavesOwned c 5 (c.world.apply 5 f) := by
  obtain ⟨c, hc, hw⟩ := Machine.exists_reach_of_exec (system .default) Machine.Always
    (deployed_oneUpload [.clock, .dispatch .select, .worker, .cancelProcessing 0 0 .lockVideo,
      .requeueProcessing 0 .lockVideo, .dispatch .select, .worker] (by simp [Proc.IsFresh]))
    (replacedTurns (turns 5 3)) (fun c : State => c.writesLate 5 false) (by decide +kernel)
  obtain ⟨p, f, e, hs, he, ho, hsp, -⟩ := State.exists_of_writesLate hw
  refine ⟨c, p, f, e, hc, hs, he, ho, (leavesOwned_iff hc hs).mpr (.inr fun e' he' _ => ?_)⟩
  exact hsp rfl

/-- The first task fails, and finds that it owns the job; then it is cancelled and replaced. It
releases the job of the second task. -/
theorem exists_not_leavesOwned :
    ∃ c p f, (system .default).Reach Deployed Machine.Always c ∧
      (c.procs 5).step .default 5 .ok c.world = some (p, f) ∧
      ¬ LeavesOwned c 5 (c.world.apply 5 f) := by
  obtain ⟨c, hc, hw⟩ := Machine.exists_reach_of_exec (system .default) Machine.Always
    (deployed_oneUpload [.clock, .dispatch .select, .worker, .cancelProcessing 0 0 .lockVideo,
      .requeueProcessing 0 .lockVideo, .dispatch .select, .worker] (by simp [Proc.IsFresh]))
    (replacedTurns (turns 5 5 ++ [(5, .fault)] ++ turns 5 1) ++ turns 5 1)
    (fun c : State => c.writesLate 5 true) (by decide +kernel)
  obtain ⟨p, f, e, hs, he, ho, -, hne⟩ := State.exists_of_writesLate hw
  exact ⟨c, p, f, hc, hs, fun hl => hne rfl (hl e he ho).1⟩

end NextBallUp
