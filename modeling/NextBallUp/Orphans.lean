import NextBallUp.Ledger

/-!
# Orphaned jobs

The dispatcher never looks at a job again that has a task id, and no endpoint requeues a PENDING
job: such a job waits for a message. `dispatch_pending_jobs` sends the message before it records
the id, and asks only whether the job is still PENDING without one when it does. If the execution
that the message starts has ended by then, and the job has been requeued, the recorded id is that of
a message that will not come. This module proves that every job with a recorded id is waited for as
long as no job is requeued in that gap without another message.

## Main definitions

* `Proc.carries`: an execution that may still claim, retry or fail a job
* `State.Outstanding`: a message for the job is undelivered, scheduled for a retry, or being
  delivered
* `KeepsMessages`: the condition on a turn

## Main results

* `outstanding_of_reach`: **in every run of turns that satisfy the condition, a message is
  outstanding for every PENDING job with a task id**
* `exists_orphan`: a job that is requeued between the two steps of the dispatcher is orphaned
-/

namespace NextBallUp

variable {S : Settings} {w w' : World} {pid : Pid} {a : Answer} {p p' : Proc} {f : Effect}

/-- An execution whose message has been delivered, and which has still to claim the job, to schedule
its retry, or to fail it. -/
def Proc.carries (j : JobId) : Proc → Bool
  | .transcode e .loadJob | .transcode e .claimJob | .transcode e (.retry _)
  | .cvStage e .loadJob | .cvStage e .claimJob
  | .onFailure e _ _ .getJob | .onFailure e _ _ .failJob
  | .onFailure e _ _ (.setFailed (some _)) => e.job = j
  | _ => false

/-- The process is a dispatcher that has sent a message for the job and not recorded its task id. -/
def Proc.records (j : JobId) : Proc → Bool
  | .dispatch (.record j' ..) => j' = j
  | _ => false

/-- A message for the job is undelivered, scheduled for a retry, or being delivered. -/
def State.Outstanding (c : State) (j : JobId) : Prop :=
  (∃ m ∈ c.world.queue, m.job = j) ∨ ∃ k, (c.procs k).carries j

/-- The condition on a turn. The hook of a delivered execution runs to its end, and while a
dispatcher has sent a message for a job and not recorded its task id, the job is requeued only if a
message for it is still outstanding. -/
def KeepsMessages (c : State) (i : Pid) (a : Answer) : Prop :=
  match c.procs i with
  | .onFailure .. => a.isError = false
  | .requeueProcessing v (.setPending ..) =>
    a.isError ∨ ∀ k, (c.procs k).records (transcodeJob v) → c.Outstanding (transcodeJob v)
  | _ => True

/-! ### Messages -/

/-- Only a worker takes messages from the queue. -/
theorem Proc.worker_of_ack {n : ℕ} (h : p.step S pid a w = some (p', .ack n)) :
    ∃ m, w.queue[n]? = some m ∧ p' = m.start := by
  by_cases ha : a.isError = true
  · obtain ⟨message, rfl⟩ := Answer.isError_iff.mp ha
    cases (Proc.step_error.mp h).2
  rw [Proc.step_of_not_error fun m hm => ha (by rw [hm]; rfl)] at h
  cases p with
  | worker =>
    simp only [turn] at h
    split at h
    · next k again =>
      obtain ⟨m, hm, h⟩ := Option.map_eq_some_iff.mp h
      split at h <;> cases h
      exact ⟨m, hm, rfl⟩
    · cases h
  | transcode e pc =>
    cases pc <;> simp only [turn, ExecuteTranscode.step, ExecuteTranscode.raise,
      ExecuteTranscode.heartbeat, updateJob_eq_some, updateVideo_eq_some,
      lockAndSetJob_eq_some, Table.locate_eq_some] at h
    all_goals grind [updateJob_eq_some]
  | cvStage e pc =>
    cases pc <;> simp only [turn, ExecuteCvStage.step, updateJob_eq_some] at h
    all_goals grind [Table.locate_eq_some]
  | onFailure e err failVideo pc =>
    cases pc <;> simp only [turn, TerminalFailure.step, lockAndSetJob_eq_some] at h
    all_goals grind [updateVideo_eq_some]
  | dispatch pc =>
    cases pc <;> simp only [turn, DispatchPendingJobs.step, Table.locate_eq_some] at h <;> grind
  | recover pc =>
    cases pc <;> simp only [turn, RecoverStaleJobs.step, updateVideo_eq_some,
      lockAndSetJob_eq_some] at h <;> grind
  | abandoned pc =>
    cases pc <;> simp only [turn, CleanupAbandonedUploads.step, Table.locate_eq_some] at h <;> grind
  | rawDeletes pass pc =>
    cases pc <;> simp only [turn, RawDeletes.step, updateVideo_eq_some] at h <;> grind
  | initiate req pc =>
    cases pc <;> simp only [turn, InitiateUpload.step, InitiateUpload.deny] at h <;> grind
  | complete req pc =>
    cases pc <;> simp only [turn, CompleteUpload.step, Table.locate_eq_some] at h <;> grind
  | cancelUpload v pc =>
    cases pc <;> simp only [turn, CancelUpload.step, Table.locate_eq_some] at h <;> grind
  | deleteFailed v pc =>
    cases pc <;> simp only [turn, DeleteFailedVideo.step, Table.locate_eq_some] at h
    case cleanStorage r handle rest failures =>
      cases handle <;> grind [DeleteFailedVideo.remove]
    all_goals grind
  | cancelProcessing v u pc =>
    cases pc <;> simp only [turn, CancelProcessing.step, Table.locate_eq_some] at h <;> grind
  | requeueProcessing v pc =>
    cases pc <;> simp only [turn, RequeueProcessing.step, Table.locate_eq_some] at h <;> grind
  | client v o =>
    simp only [turn] at h
    grind
  | clock =>
    simp only [turn] at h
    grind
  | done => cases h

theorem Message.carries_start (m : Message) : m.start.carries m.job := by
  rcases m.start_eq with h | h <;> rw [h] <;> exact decide_eq_true rfl

/-- A message stays in the queue until it is delivered. -/
theorem mem_queue_or_carries {m : Message} (hm : m ∈ w.queue)
    (hs : p.step S pid a w = some (p', f)) : m ∈ (w.apply pid f).queue ∨ p'.carries m.job := by
  cases f with
  | ack n =>
    obtain ⟨m', hm', rfl⟩ := Proc.worker_of_ack hs
    obtain ⟨k, hk⟩ := List.getElem?_of_mem hm
    by_cases hkn : k = n
    · subst hkn
      obtain rfl := Option.some.inj (hk.symm.trans hm')
      exact .inr m.carries_start
    · exact .inl (List.mem_eraseIdx_iff_getElem?.mpr ⟨k, hkn, hk⟩)
  | sendTask | retry => exact .inl (List.mem_append_left _ hm)
  | _ => exact .inl hm

/-! ### Executions -/

/-- The job is not PENDING. -/
def World.notPending (w : World) (j : JobId) : Prop :=
  ∀ r, w.jobs.row j = some r → r.status ≠ .pending

theorem World.notPending_of_none {j : JobId} (h : w.jobs.row j = none) : w.notPending j := by
  intro r hr
  cases h.symm.trans hr

theorem notPending_commit {j : JobId} {log : List (AuditAction × Resource)}
    (h : w.notPending j) : (w.apply pid (.commit { auditLogs := log })).notPending j := by
  intro r hr
  exact h r (by simpa [World.apply] using hr)

theorem notPending_of_updateVideo {v : VideoId} {u : Update Video} {j : JobId} {x : ProcessingJob}
    {log : List (AuditAction × Resource)} {next : Option Video → Proc}
    (h : updateVideo w pid v u [(j, x)] log next = some (p, f)) (hx : x.status ≠ .pending) :
    (w.apply pid f).notPending j := by
  obtain ⟨o, -, he⟩ := updateVideo_eq_some.mp h
  cases he
  intro r hr
  obtain rfl : x = r := by simpa [World.apply, Table.row_put] using hr
  exact hx

/-- A claim leaves no job PENDING. -/
theorem notPending_of_claim {e : Execution} {log : List (AuditAction × Resource)}
    {next : Option ProcessingJob → Proc}
    (h : updateJob w pid e.job (claimJob e.taskId w.now) log next = some (p, f)) :
    (w.apply pid f).notPending e.job := by
  obtain ⟨o, ho, he⟩ := updateJob_eq_some.mp h
  cases he
  cases ho with
  | miss hm =>
    exact notPending_commit fun r hr hs => absurd (hm r hr) (by simp [claimJob, hs])
  | hit hr hc =>
    intro r' hr'
    obtain rfl : (claimJob e.taskId w.now).set _ = r' := by
      simpa [World.apply, Table.row_put] using hr'
    simp [claimJob]

/-- An execution that carries a job goes on to carry it, schedules its retry, or finds or leaves it
not PENDING. -/
theorem Proc.step_carries {j : JobId} (hc : p.carries j) (hp : p.Routed) (hh : p.Holds S pid w)
    (hhook : ∀ e err failVideo pc, p = .onFailure e err failVideo pc → a.isError = false)
    (hs : p.step S pid a w = some (p', f)) :
    p'.carries j ∨ (∃ m ∈ (w.apply pid f).queue, m.job = j) ∨ (w.apply pid f).notPending j := by
  by_cases ha : a.isError = true
  · obtain ⟨message, rfl⟩ := Answer.isError_iff.mp ha
    obtain ⟨he, -⟩ := Proc.step_error.mp hs
    cases p with
    | transcode e pc =>
      cases pc <;> first | (cases he; exact .inl hc) | cases hc
    | cvStage e pc =>
      cases pc <;> first | (cases he; exact .inl hc) | cases hc
    | onFailure e err failVideo pc => cases hhook e err failVideo pc rfl
    | _ => cases hc
  rw [Proc.step_of_not_error fun m hm => ha (by rw [hm]; rfl)] at hs
  cases p with
  | transcode e pc =>
    cases pc with
    | loadJob =>
      obtain rfl : e.job = j := of_decide_eq_true hc
      simp only [turn, ExecuteTranscode.step] at hs
      split at hs
      · next hn =>
        cases hs
        exact .inr (.inr (World.notPending_of_none hn))
      · split at hs <;> cases hs <;> exact .inl hc
    | claimJob =>
      obtain rfl : e.job = j := of_decide_eq_true hc
      simp only [turn, ExecuteTranscode.step] at hs
      exact .inr (.inr (notPending_of_claim hs))
    | retry err =>
      obtain rfl : e.job = j := of_decide_eq_true hc
      simp only [turn, ExecuteTranscode.step] at hs
      split at hs
      · cases hs
        exact .inr (.inl
          ⟨⟨e.taskId, e.job⟩, List.mem_append_right _ (List.mem_singleton_self _), rfl⟩)
      · cases hs
        exact .inl hc
      · cases hs
    | _ => cases hc
  | cvStage e pc =>
    cases pc with
    | loadJob =>
      obtain rfl : e.job = j := of_decide_eq_true hc
      simp only [turn, ExecuteCvStage.step] at hs
      split at hs
      · next hn =>
        cases hs
        exact .inr (.inr (World.notPending_of_none hn))
      · have hup : e.job.stage.upstream ≠ none := ProcessingJobStage.upstream_ne_none hp
        rw [if_neg hup] at hs
        cases hs
        exact .inl hc
    | claimJob =>
      obtain rfl : e.job = j := of_decide_eq_true hc
      simp only [turn, ExecuteCvStage.step] at hs
      exact .inr (.inr (notPending_of_claim hs))
    | _ => cases hc
  | onFailure e err failVideo pc =>
    cases pc with
    | getJob =>
      obtain rfl : e.job = j := of_decide_eq_true hc
      simp only [turn, TerminalFailure.step] at hs
      split at hs
      · next hn =>
        cases hs
        exact .inr (.inr (World.notPending_of_none hn))
      · cases hs
        exact .inl hc
    | failJob =>
      obtain rfl : e.job = j := of_decide_eq_true hc
      simp only [turn, TerminalFailure.step, lockAndSetJob_eq_some] at hs
      obtain ⟨o, ho, he⟩ := hs
      cases he
      cases ho with
      | hit => exact .inl hc
      | miss hm =>
        exact .inr (.inr fun r hr hp => absurd (hm r hr) (by simp [NextBallUp.failJob, hp]))
    | setFailed job =>
      cases job with
      | none => cases hc
      | some x =>
        obtain rfl : e.job = j := of_decide_eq_true hc
        have hx : x.2.status ≠ .pending := by simp [hh.2.failed]
        simp only [turn, TerminalFailure.step] at hs
        split at hs
        · exact .inr (.inr (notPending_of_updateVideo hs hx))
        · cases hs
          refine .inr (.inr fun r hr => ?_)
          obtain rfl : x.2 = r := by simpa [World.apply, Table.row_put] using hr
          exact hx
  | _ => cases hc

section Step

variable {c : State} {i : Pid} {j : JobId}

/-- A turn after which the job is still PENDING leaves its message outstanding. -/
theorem State.Outstanding.after (h : c.Outstanding j) (hsound : c.Sound S)
    (hok : KeepsMessages c i a) (hs : (c.procs i).step S i a c.world = some (p, f))
    {r : ProcessingJob} (hr : (c.after i p f).world.jobs.row j = some r)
    (hst : r.status = .pending) : (c.after i p f).Outstanding j := by
  rcases h with ⟨m, hm, rfl⟩ | ⟨k, hk⟩
  · rcases mem_queue_or_carries hm hs with hm | hp
    · exact .inl ⟨m, hm, rfl⟩
    · exact .inr ⟨i, by rwa [State.procs_after]⟩
  · by_cases hki : k = i
    · subst hki
      have hhook : ∀ e err failVideo pc, c.procs k = .onFailure e err failVideo pc →
          a.isError = false := by
        intro e err failVideo pc hp
        unfold KeepsMessages at hok
        rwa [hp] at hok
      rcases Proc.step_carries hk (hsound.routed k) (hsound.holds k) hhook hs with hp | hq | hn
      · exact .inr ⟨k, by rwa [State.procs_after]⟩
      · exact .inl hq
      · exact (hn r hr hst).elim
    · exact .inr ⟨k, by rwa [State.procs_after_of_ne _ _ _ _ hki]⟩

end Step

/-! ### Requeues -/

/-- A request that finds the job FAILED as it loaded it finds it as it was loaded. -/
def RequeueProcessing.Loaded (v : VideoId) (w : World) : RequeueProcessing.Pc → Prop
  | .lockJob _ (some loaded) => loaded.status = .failed → w.jobs.row (transcodeJob v) = some loaded
  | .headRaw _ loaded row | .setPending _ loaded row => loaded = row
  | _ => True

theorem RequeueProcessing.step_loaded {v : VideoId} {pc pc' : Pc} (h : Loaded v w pc)
    (hs : step S pid v w a pc = some (.requeueProcessing v pc', f)) :
    Loaded v (w.apply pid f) pc' := by
  cases pc with
  | lockVideo =>
    simp only [step, Table.locate_eq_some] at hs
    obtain ⟨o, -, he⟩ := hs
    cases o with
    | none => cases he
    | some video =>
      simp only at he
      split at he <;> cases he
      trivial
  | loadJob video =>
    cases hs
    unfold Loaded
    cases hr : w.jobs.row (transcodeJob v) with
    | none => trivial
    | some loaded => exact fun _ => hr
  | lockJob video loaded =>
    simp only [step, Table.locate_eq_some] at hs
    obtain ⟨o, ho, he⟩ := hs
    cases ho with
    | miss => cases he
    | @hit row hr =>
      simp only at he
      split at he <;> cases he
      next hf =>
      cases loaded with
      | none => rfl
      | some loaded => exact Option.some.inj ((h hf.1).symm.trans hr)
  | headRaw video loaded row =>
    simp only [step] at hs
    split at hs
    · split at hs <;> cases hs
      exact h
    · cases hs
  | setPending => cases hs

/-- Nobody else changes a FAILED job of a video that a session has locked. -/
theorem row_of_failed {c : State} {i k : Pid} {v : VideoId} {o : Option Video} {r : ProcessingJob}
    (hsound : c.Sound S) (ho : c.world.videos.Owns k v o)
    (hs : (c.procs i).step S i a c.world = some (p, f)) (hik : k ≠ i)
    (hr : c.world.jobs.row (transcodeJob v) = some r) (hf : r.status = .failed) :
    (c.world.apply i f).jobs.row (transcodeJob v) = some r := by
  have hm := Proc.jobMove (hsound.holds i) hs (transcodeJob v)
  have hh := hsound.holds i
  have video {u : VideoId} (he : transcodeJob u = transcodeJob v) : u = v :=
    congrArg JobId.videoId he
  rw [hr] at hm
  generalize (c.world.apply i f).jobs.row (transcodeJob v) = o' at hm
  cases hm with
  | keep => rfl
  | delete hp =>
    rw [hp] at hh
    exact (hik (ho.session_eq hh.1)).elim
  | claim _ _ h | record _ h => cases hf.symm.trans h
  | heartbeat _ _ h => exact (by simp [ProcessingJob.isActive, hf] at h)
  | complete _ _ h | completeStage _ _ h => cases hf.symm.trans h.running
  | release _ _ h => cases hf.symm.trans h.running
  | fail _ _ h | failStage _ _ h | hookFail _ _ h | recoverFail _ _ h =>
    rcases h.open with h | h <;> cases hf.symm.trans h
  | cancelProcessing hp he =>
    rw [hp] at hh
    obtain rfl := video he
    exact (hik (ho.session_eq hh.1.1)).elim
  | requeueProcessing hp he =>
    rw [hp] at hh
    obtain rfl := video he
    exact (hik (ho.session_eq hh.1.1)).elim

theorem loaded_of_reach {ok : State → Pid → Answer → Prop} {c : State}
    (h : (system S).Reach Deployed ok c) {k : Pid} {v : VideoId} {pc : RequeueProcessing.Pc}
    (hp : c.procs k = .requeueProcessing v pc) : RequeueProcessing.Loaded v c.world pc := by
  refine invariant_of_reach (Q := fun c => ∀ k v pc, c.procs k = .requeueProcessing v pc →
    RequeueProcessing.Loaded v c.world pc) ?_ ?_ h k v pc hp
  · rintro c ⟨-, hf⟩ k v pc hp
    have hfresh := hp ▸ hf k
    cases pc <;> trivial
  · intro c i a p f hreach hc _ hs k v pc hp
    have hsound := sound_of_reach hreach
    by_cases hk : k = i
    · subst hk
      rw [State.procs_after] at hp
      subst hp
      obtain ⟨pc₀, hp₀, hs₀⟩ := Proc.step_origin hs
      exact RequeueProcessing.step_loaded (hc k v pc₀ hp₀) hs₀
    · rw [State.procs_after_of_ne _ _ _ _ hk] at hp
      have hh := hsound.holds k
      have hl := hc k v pc hp
      rw [hp] at hh
      unfold RequeueProcessing.Loaded at hl ⊢
      split
      · exact fun hf => row_of_failed hsound hh.1 hs hk (hl hf) hf
      · exact hl
      · exact hl
      · trivial

/-! ### The dispatcher -/

/-- The jobs that a dispatcher has still to treat, the current one first. -/
def DispatchPendingJobs.batch : DispatchPendingJobs.Pc → List JobId
  | .enqueue job rest _ | .record job _ rest _ => job :: rest
  | .select | .finished _ => []

theorem DispatchPendingJobs.batch_loop (dispatched : List JobId) (jobs : List JobId) :
    batch (loop dispatched jobs) = jobs := by
  cases jobs <;> rfl

theorem DispatchPendingJobs.step_batch {pc pc' : Pc}
    (h : step S pid w a pc = some (.dispatch pc', f)) {j : JobId} (hj : j ∈ batch pc') :
    (w.jobs.row j ≠ none ∧ f = .skip) ∨ j ∈ batch pc := by
  cases pc with
  | select =>
    simp only [step] at h
    split at h
    · split at h <;> cases h
      next hq =>
      rw [batch_loop] at hj
      obtain ⟨r, hr, -⟩ := (Option.any_eq_true _ _).mp (isQueryResult_all hq j hj)
      exact .inl ⟨by simp [hr], rfl⟩
    · cases h
  | enqueue job rest dispatched =>
    simp only [step] at h
    cases h
    split at hj
    · exact .inr hj
    · rw [batch_loop] at hj
      exact .inr (List.mem_cons_of_mem _ hj)
  | record job taskId rest dispatched =>
    simp only [step, Table.locate_eq_some] at h
    obtain ⟨o, -, he⟩ := h
    cases o <;> cases he <;> rw [batch_loop] at hj <;> exact .inr (List.mem_cons_of_mem _ hj)
  | finished => cases h

/-- A job that a dispatcher treats exists, or is gone for good. -/
theorem exists_or_gone_of_reach {ok : State → Pid → Answer → Prop} {c : State}
    (h : (system S).Reach Deployed ok c) {k : Pid} {pc : DispatchPendingJobs.Pc}
    (hp : c.procs k = .dispatch pc) {j : JobId} (hj : j ∈ DispatchPendingJobs.batch pc) :
    c.world.jobs.row j ≠ none ∨ c.Gone j := by
  refine invariant_of_reach (Q := fun c => ∀ k pc, c.procs k = .dispatch pc →
    ∀ j ∈ DispatchPendingJobs.batch pc, c.world.jobs.row j ≠ none ∨ c.Gone j) ?_ ?_ h k pc hp j hj
  · rintro c ⟨-, hf⟩ k pc hp j hj
    have hfresh := hp ▸ hf k
    cases pc with
    | select | finished => cases hj
    | enqueue | record => exact hfresh.elim
  · intro c i a p f hreach hc _ hs k pc hp j hj
    have after (h : c.world.jobs.row j ≠ none ∨ c.Gone j) :
        (c.after i p f).world.jobs.row j ≠ none ∨ (c.after i p f).Gone j := by
      have hsound := sound_of_reach hreach
      rcases h with h | h
      · by_cases hr : (c.after i p f).world.jobs.row j = none
        · exact .inr (State.gone_after_delete hsound (identified_of_reach hreach) hs h hr)
        · exact .inl hr
      · exact .inr (h.after hsound hs)
    by_cases hk : k = i
    · subst hk
      rw [State.procs_after] at hp
      subst hp
      obtain ⟨pc₀, hp₀, hs₀⟩ := Proc.step_origin hs
      rcases DispatchPendingJobs.step_batch hs₀ hj with ⟨hr, rfl⟩ | hj₀
      · exact .inl hr
      · exact after (hc k pc₀ hp₀ j hj₀)
    · rw [State.procs_after_of_ne _ _ _ _ hk] at hp
      exact after (hc k pc hp j hj)

theorem Proc.records_iff {j : JobId} :
    p.records j ↔ ∃ taskId rest dispatched, p = .dispatch (.record j taskId rest dispatched) := by
  unfold records
  split
  · next j' taskId rest dispatched =>
    simp only [decide_eq_true_eq]
    constructor
    · rintro rfl
      exact ⟨taskId, rest, dispatched, rfl⟩
    · rintro ⟨_, _, _, ⟨⟩⟩
      rfl
  · next hp =>
    simp only [Bool.false_eq_true, false_iff]
    rintro ⟨taskId, rest, dispatched, rfl⟩
    exact hp _ _ _ _ rfl

/-- A process that comes to record a task id has just sent the message. -/
theorem Proc.step_records {j : JobId} (hs : p.step S pid a w = some (p', f)) (h : p'.records j) :
    ∃ m ∈ (w.apply pid f).queue, m.job = j := by
  obtain ⟨taskId, rest, dispatched, rfl⟩ := Proc.records_iff.mp h
  obtain ⟨pc, rfl, hs₀⟩ := Proc.step_origin hs
  cases pc with
  | enqueue job rest' dispatched' =>
    simp only [DispatchPendingJobs.step, Option.some.injEq, Prod.mk.injEq] at hs₀
    obtain ⟨he, rfl⟩ := hs₀
    by_cases ha : a.returns = true
    · rw [if_pos ha] at he
      cases he
      have happ : a.applied = true := by
        simp only [Answer.returns, decide_eq_true_eq] at ha
        exact decide_eq_true ha.1
      rw [if_pos happ]
      exact ⟨⟨w.uuid, j⟩, List.mem_append_right _ (List.mem_singleton_self _), rfl⟩
    · rw [if_neg ha] at he
      cases rest' <;> cases he
  | select =>
    simp only [DispatchPendingJobs.step] at hs₀
    split at hs₀
    · next ids =>
      split at hs₀ <;> cases ids <;> cases hs₀
    · cases hs₀
  | record job taskId' rest' dispatched' =>
    simp only [DispatchPendingJobs.step, Table.locate_eq_some] at hs₀
    obtain ⟨o, -, he⟩ := hs₀
    cases o <;> cases rest' <;> cases he
  | finished => cases hs₀

/-! ### The invariant -/

/-- A message is outstanding for every PENDING job with a task id, or about to have one recorded. -/
def State.Covered (c : State) : Prop :=
  ∀ j r, c.world.jobs.row j = some r → r.status = .pending →
    (r.celeryTaskId ≠ none ∨ ∃ k, (c.procs k).records j) → c.Outstanding j

section Covered

variable {c : State} {i : Pid} {j : JobId}

/-- A turn that leaves a job PENDING with or about to have a task id has found it so, or a message
is outstanding. -/
theorem JobMove.covered {o : Option ProcessingJob} {r' : ProcessingJob}
    (hm : JobMove c.world (c.procs i) j o (some r')) (hrow : c.world.jobs.row j = o)
    (hcov : c.Covered) (hsound : c.Sound S) (hok : KeepsMessages c i a) (ha : a.isError = false)
    (hs : (c.procs i).step S i a c.world = some (p, f))
    (hloaded : ∀ v pc, c.procs i = .requeueProcessing v pc →
      RequeueProcessing.Loaded v c.world pc)
    (hgone : ∀ k, (c.procs k).records j → c.world.jobs.row j ≠ none ∨ c.Gone j)
    (hr' : (c.after i p f).world.jobs.row j = some r') (hst : r'.status = .pending)
    (hrec : r'.celeryTaskId ≠ none ∨ ∃ k, (c.procs k).records j) :
    (c.after i p f).Outstanding j := by
  have after (h : c.Outstanding j) : (c.after i p f).Outstanding j := h.after hsound hok hs hr' hst
  cases hm with
  | keep => exact after (hcov j r' hrow hst hrec)
  | insert _ hv =>
    rcases hrec with hrec | ⟨k, hk⟩
    · exact (hrec rfl).elim
    · rcases hgone k hk with h | h
      · exact (h hrow).elim
      · exact (hv h.2.1).elim
  | claim => cases hst
  | heartbeat _ _ hact =>
    obtain ⟨hrun, -⟩ := of_decide_eq_true hact
    cases hrun.symm.trans hst
  | complete _ _ hx | completeStage _ _ hx => cases hx.completed.symm.trans hst
  | fail _ _ hx | failStage _ _ hx | hookFail _ _ hx | recoverFail _ _ hx =>
    cases hx.failed.symm.trans hst
  | @release e err r _ hp he =>
    subst he
    refine .inr ⟨i, ?_⟩
    rw [State.procs_after]
    rw [hp, Proc.step_of_not_error (Answer.ne_error ha)] at hs
    simp only [Proc.turn, ExecuteTranscode.step, updateVideo_eq_some] at hs
    obtain ⟨o, -, he⟩ := hs
    cases he
    exact decide_eq_true rfl
  | @record taskId rest dispatched r hp hs₀ =>
    exact after (hcov j r hrow hs₀ (.inr ⟨i, Proc.records_iff.mpr ⟨_, _, _, hp⟩⟩))
  | cancelProcessing _ _ hl => simp [ProcessingJob.flush, CancelProcessing.cancelled, hl] at hst
  | @requeueProcessing v video loaded row hp he hl =>
    subst he
    obtain rfl : loaded = row := hloaded v _ hp
    have hid : (loaded.flush (RequeueProcessing.requeued loaded) loaded).celeryTaskId = none := by
      show (if none = loaded.celeryTaskId then loaded.celeryTaskId else none) = none
      split
      · next h => exact h.symm
      · rfl
    obtain ⟨k, hk⟩ := hrec.resolve_left (not_not.mpr hid)
    unfold KeepsMessages at hok
    rw [hp] at hok
    exact after (hok.resolve_left (by simp [ha]) k hk)

theorem State.Covered.after (h : c.Covered) (hsound : c.Sound S) (hok : KeepsMessages c i a)
    (hs : (c.procs i).step S i a c.world = some (p, f))
    (hloaded : ∀ v pc, c.procs i = .requeueProcessing v pc →
      RequeueProcessing.Loaded v c.world pc)
    (hgone : ∀ j k, (c.procs k).records j → c.world.jobs.row j ≠ none ∨ c.Gone j) :
    (c.after i p f).Covered := by
  intro j r hr hst hrec'
  -- A process that has just come to record an id has sent the message; the others stood there
  -- before.
  by_cases hnew : p.records j = true
  · exact .inl (Proc.step_records hs hnew)
  have hrec : r.celeryTaskId ≠ none ∨ ∃ k, (c.procs k).records j := by
    refine hrec'.imp_right ?_
    rintro ⟨k, hk⟩
    by_cases hki : k = i
    · subst hki
      rw [State.procs_after] at hk
      exact (hnew hk).elim
    · exact ⟨k, by rwa [State.procs_after_of_ne _ _ _ _ hki] at hk⟩
  by_cases ha : a.isError = true
  · obtain ⟨message, rfl⟩ := Answer.isError_iff.mp ha
    obtain ⟨-, rfl⟩ := Proc.step_error.mp hs
    have hrow : c.world.jobs.row j = some r := by simpa [World.apply] using hr
    exact (h j r hrow hst hrec).after hsound hok hs hr hst
  · have hm := Proc.jobMove (hsound.holds i) hs j
    rw [← State.world_after c i p f, hr] at hm
    exact hm.covered rfl h hsound hok (by simpa using ha) hs hloaded (hgone j) hr hst hrec

end Covered

theorem covered_of_reach {c : State} (h : (system S).Reach Deployed KeepsMessages c) :
    c.Covered := by
  refine invariant_of_reach (Q := State.Covered) ?_ ?_ h
  · rintro c ⟨⟨accounts, links, hw⟩, -⟩ j r hr
    rw [hw] at hr
    cases hr
  · intro c i a p f hreach hc hok hs
    refine hc.after (sound_of_reach hreach) hok hs (fun v pc hp => loaded_of_reach hreach hp) ?_
    intro j k hk
    obtain ⟨taskId, rest, dispatched, hp⟩ := Proc.records_iff.mp hk
    exact exists_or_gone_of_reach hreach hp (List.mem_cons_self ..)

/-- **In every run of turns that satisfy the condition, a message is outstanding for every PENDING
job with a task id.** -/
theorem outstanding_of_reach {c : State} (h : (system S).Reach Deployed KeepsMessages c)
    {j : JobId} {r : ProcessingJob} (hr : c.world.jobs.row j = some r) (hs : r.status = .pending)
    (ht : r.celeryTaskId ≠ none) : c.Outstanding j :=
  covered_of_reach h j r hr hs (.inl ht)

/-! ### Given runs -/

/-- The transcode job of the first video is PENDING with a task id. -/
def State.isRecorded (c : State) : Bool :=
  (c.world.jobs.row (transcodeJob 0)).any fun r => r.status = .pending ∧ r.celeryTaskId.isSome

/-- A check that implies the condition where nothing fails in a hook and nothing is requeued. -/
def State.replacesNothing (c : State) (i : Pid) (a : Answer) : Bool :=
  match c.procs i with
  | .onFailure .. => !a.isError
  | .requeueProcessing .. => false
  | _ => true

theorem keepsMessages_of_replacesNothing {c : State} {i : Pid}
    (h : c.replacesNothing i a = true) : KeepsMessages c i a := by
  unfold State.replacesNothing at h
  unfold KeepsMessages
  split <;> simp_all

/-- The dispatcher has sent and recorded the task of an uploaded video. -/
theorem exists_outstanding :
    ∃ (c : State) (r : ProcessingJob), (system .default).Reach Deployed KeepsMessages c ∧
      c.world.jobs.row (transcodeJob 0) = some r ∧ r.status = .pending ∧ r.celeryTaskId ≠ none ∧
      c.Outstanding (transcodeJob 0) := by
  obtain ⟨c, hc, hd⟩ := exists_reach_of_check (S := .default) State.replacesNothing
    (fun _ _ _ _ => keepsMessages_of_replacesNothing)
    (deployed_oneUpload [.clock, .dispatch .select] (by simp [Proc.IsFresh]))
    (bounded_oneUpload [.clock, .dispatch .select])
    (uploadTurns ++ [(3, .seconds 5), (4, .jobs [transcodeJob 0])] ++ turns 4 2)
    State.isRecorded (by decide +kernel)
  obtain ⟨r, hr, hd⟩ := (Option.any_eq_true _ _).mp hd
  obtain ⟨hs, ht⟩ := of_decide_eq_true hd
  have ht : r.celeryTaskId ≠ none := by rw [← Option.isSome_iff_ne_none]; exact ht
  exact ⟨c, r, hc, hr, hs, ht, outstanding_of_reach hc hr hs ht⟩

/-- The dispatcher sends the message; the worker it reaches fails the job; a coach requeues it; and
then the dispatcher records its task id. The job is PENDING, the queue is empty, and no execution
is left. -/
theorem exists_orphan :
    ∃ (c : State) (r : ProcessingJob), (system .default).Reach Deployed Machine.Always c ∧
      c.world.jobs.row (transcodeJob 0) = some r ∧ r.status = .pending ∧ r.celeryTaskId ≠ none ∧
      c.world.queue = [] ∧ ¬ c.Outstanding (transcodeJob 0) := by
  obtain ⟨c, hc, hb, hd⟩ : ∃ c : State, (system .default).Reach Deployed Machine.Always c ∧
      c.Bounded 7 ∧ (c.isRecorded && c.world.queue.isEmpty &&
        (List.range 7).all fun k => !(c.procs k).carries (transcodeJob 0)) = true :=
    exists_bounded_reach_of_check (fun _ _ _ => true) (fun _ _ _ _ _ => trivial)
    (deployed_oneUpload [.clock, .dispatch .select, .worker, .requeueProcessing 0 .lockVideo]
      (by simp [Proc.IsFresh]))
    (bounded_oneUpload [.clock, .dispatch .select, .worker, .requeueProcessing 0 .lockVideo])
    (uploadTurns ++ [(3, .seconds 5), (4, .jobs [transcodeJob 0])] ++ turns 4 1 ++
      [(5, .deliver 0 false)] ++ turns 5 8 ++ [(5, .raised false .processingTranscodeFailed "")] ++
      turns 5 3 ++ turns 6 5 ++ turns 4 1)
    (fun c : State => c.isRecorded && c.world.queue.isEmpty &&
      (List.range 7).all fun k => !(c.procs k).carries (transcodeJob 0)) (by decide +kernel)
  simp only [Bool.and_eq_true, List.all_eq_true, List.mem_range, List.isEmpty_iff] at hd
  obtain ⟨⟨hrec, hq⟩, hprocs⟩ := hd
  obtain ⟨r, hr, hrec⟩ := (Option.any_eq_true _ _).mp hrec
  obtain ⟨hs, ht⟩ := of_decide_eq_true hrec
  refine ⟨c, r, hc, hr, hs, by rw [← Option.isSome_iff_ne_none]; exact ht, hq, ?_⟩
  rintro (⟨m, hm, -⟩ | ⟨k, hk⟩)
  · rw [hq] at hm
    cases hm
  · by_cases hlt : k < 7
    · simpa [hk] using hprocs k hlt
    · rw [hb k (Nat.le_of_not_lt hlt)] at hk
      cases hk

end NextBallUp
