import NextBallUp.System

/-!
# What a process may rely on inside a transaction

A process that has locked a row is the only one that can change it until its transaction ends.
This module says, for every program point inside a transaction, which rows the process owns and
what it knows of them, and proves that once for all runs.

## Main definitions

* `Effect.Permitted`: an effect locks and writes only what no other session has locked
* `Frame`: what a permitted effect leaves alone
* `Proc.Holds`: what a process owns at its program point
* `Proc.HoldsRows`: what it owns there of the jobs and videos

## Main results

* `apply_frame`: permitted effects frame the other sessions
* `Proc.step_sound`: a turn is permitted, and establishes what holds at the next program point
* `holds_of_reach`: in every run, every process owns what its program point says
-/

namespace NextBallUp

variable {S : Settings} {w w' : World} {pid : Pid}

/-! ### Permitted effects -/

/-- The effect locks and writes only what no other session has locked. -/
def Effect.Permitted (pid : Pid) (w : World) : Effect → Prop
  | .lock jobs videos accounts =>
    (∀ j ∈ jobs, w.jobs.Free pid j) ∧ (∀ v ∈ videos, w.videos.Free pid v) ∧
      ∀ a ∈ accounts, w.accounts.Free pid a
  | .commit tx =>
    (∀ e ∈ tx.jobs, w.jobs.Free pid e.1 ∨ w.jobs.row e.1 = none) ∧
      (∀ e ∈ tx.videos, w.videos.Free pid e.1) ∧
      ∀ v ∈ tx.deleted, w.videos.Free pid v ∧ ∀ s, w.jobs.Free pid ⟨v, s⟩
  | .flushVideo => w.videos.Free pid w.uuid
  | _ => True

/-- What every turn of session `pid` leaves alone. -/
structure Frame (pid : Pid) (w w' : World) : Prop where
  jobs : w.jobs.RespectsRows pid w'.jobs
  videos : w.videos.Respects pid w'.videos
  accounts : w.accounts.Respects pid w'.accounts
  links : w'.accountTeamLinks = w.accountTeamLinks
  plans : w'.accounts.row = w.accounts.row
  uuid : w.uuid ≤ w'.uuid
  now : w.now ≤ w'.now

/-- **Permitted effects frame the other sessions.** -/
theorem apply_frame {e : Effect} (h : e.Permitted pid w) : Frame pid w (w.apply pid e) := by
  have hj : w.jobs.RespectsRows pid w.jobs := (Table.Respects.refl _ _).rows
  have hv : w.videos.Respects pid w.videos := .refl _ _
  have ha : w.accounts.Respects pid w.accounts := .refl _ _
  cases e with
  | lock jobs videos accounts =>
    exact ⟨(Table.respects_acquireAll h.1).rows, Table.respects_acquireAll h.2.1,
      Table.respects_acquireAll h.2.2, rfl, rfl, Nat.le_refl _, Nat.le_refl _⟩
  | commit tx =>
    obtain ⟨hj, hv, hd⟩ := h
    refine ⟨?_, ?_, Table.respects_release _ _, rfl, rfl, Nat.le_refl _, Nat.le_refl _⟩
    · refine ((Table.respectsRows_putAll hj).trans
        (Table.respects_eraseAll fun k hk => ?_).rows).trans
        (Table.respects_release _ _).rows
      have hf := (hd k.videoId (by simpa using hk)).2 k.stage
      simpa only [Table.Free, Table.lock_putAll] using hf
    · refine ((Table.respects_putAll hv).trans (Table.respects_eraseAll fun k hk => ?_)).trans
        (Table.respects_release _ _)
      have hf := (hd k (by simpa using hk)).1
      simpa only [Table.Free, Table.lock_putAll] using hf
  | flushVideo =>
    refine ⟨hj, Table.respects_acquireAll ?_, ha, rfl, rfl, Nat.le_succ _, Nat.le_refl _⟩
    intro k hk
    rw [List.mem_singleton] at hk
    exact hk ▸ h
  | tick n => exact ⟨hj, hv, ha, rfl, rfl, Nat.le_refl _, Nat.le_add_right _ _⟩
  | createMultipart | sendTask => exact ⟨hj, hv, ha, rfl, rfl, Nat.le_succ _, Nat.le_refl _⟩
  | skip | putObject | deleteObject | completeMultipart | abortMultipart | retry | ack =>
    exact ⟨hj, hv, ha, rfl, rfl, Nat.le_refl _, Nat.le_refl _⟩

/-! ### What a process owns -/

/-- What an execution of a transcode owns: the job it has locked, as the update found it, and what
the update makes of it. -/
def ExecuteTranscode.Holds (pid : Pid) (e : Execution) (w : World) : ExecuteTranscode.Pc → Prop
  | .materialize _ _ _ job => w.jobs.Owns pid e.job (some job) ∧ job.isActive (some e.taskId)
  | .setProcessed job completed =>
    w.jobs.Owns pid e.job (some job) ∧ IsCompletion (some e.taskId) job completed
  | .setQueued _ (some (job, released)) =>
    w.jobs.Owns pid e.job (some job) ∧ IsRelease job released
  | .setFailed (some (job, failed)) => w.jobs.Owns pid e.job (some job) ∧ IsFailure job failed
  | _ => True

def TerminalFailure.Holds (pid : Pid) (e : Execution) (w : World) : TerminalFailure.Pc → Prop
  | .setFailed (some (job, failed)) => w.jobs.Owns pid e.job (some job) ∧ IsFailure job failed
  | _ => True

/-- In its first turn a recovery pass still owns every row that its query returned. -/
def RecoverStaleJobs.Holds (S : Settings) (pid : Pid) (w : World) : RecoverStaleJobs.Pc → Prop
  | .failJob job rest true _ => ∀ x ∈ job :: rest, w.jobs.Owns pid x.1 (some x.2) ∧
    x.2.status = .running ∧ ∃ now ≤ w.now, isStale S now x.2
  | .setFailed job (some (found, failed)) _ _ _ =>
    w.jobs.Owns pid job.1 (some found) ∧ IsFailure found failed
  | _ => True

def CleanupAbandonedUploads.Holds (pid : Pid) (w : World) : CleanupAbandonedUploads.Pc → Prop
  | .sumReserved video (some r) _ _ _ | .release video (some r) _ _ _ _ _ =>
    w.videos.Owns pid video.1 (some r) ∧ r.status = .pendingUpload
  | _ => True

/-- A request for an upload owns the account from its first statement on, and the key of the video
once it has inserted it. -/
def InitiateUpload.Holds (pid : Pid) (req : InitiateUpload) (w : World) :
    InitiateUpload.Pc → Prop
  | .lockAccount => True
  | .checkUploadQuota account plan | .checkStorageQuota account plan | .flushVideo account plan =>
    w.accounts.Owns pid account (some plan) ∧ w.accountTeamLinks req.teamId = some account
  | .presign account plan video | .insertVideo account plan video _ =>
    w.accounts.Owns pid account (some plan) ∧ w.accountTeamLinks req.teamId = some account ∧
      w.videos.Owns pid video none ∧ video < w.uuid

def CompleteUpload.Holds (pid : Pid) (req : CompleteUpload) (w : World) :
    CompleteUpload.Pc → Prop
  | .completeMultipart video _ _ | .verifyObject video | .deleteRawObject video
  | .queueTranscode video =>
    w.videos.Owns pid req.videoId (some video) ∧ video.status = .pendingUpload
  | _ => True

def CancelUpload.Holds (pid : Pid) (v : VideoId) (w : World) : CancelUpload.Pc → Prop
  | .cleanStorage video | .sumReserved video | .release video _ _ =>
    w.videos.Owns pid v (some video) ∧ video.status = .pendingUpload
  | _ => True

def DeleteFailedVideo.Holds (pid : Pid) (v : VideoId) (w : World) : DeleteFailedVideo.Pc → Prop
  | .lockVideo => True
  | .cleanStorage video _ _ _ | .markFailed video | .sumReserved video | .release video _ _ =>
    w.videos.Owns pid v (some video) ∧ (video.status = .failed ∨ video.status = .pendingUpload)

def CancelProcessing.Holds (pid : Pid) (v : VideoId) (w : World) : CancelProcessing.Pc → Prop
  | .lockVideo => True
  | .loadJob video | .lockJob video _ =>
    w.videos.Owns pid v (some video) ∧ (video.status = .processing ∨ video.status = .queued)
  | .setFailed video loaded row =>
    (w.videos.Owns pid v (some video) ∧ (video.status = .processing ∨ video.status = .queued)) ∧
      w.jobs.Owns pid (transcodeJob v) (some row) ∧ loaded.status = .running

def RequeueProcessing.Holds (pid : Pid) (v : VideoId) (w : World) : RequeueProcessing.Pc → Prop
  | .lockVideo => True
  | .loadJob video | .lockJob video _ =>
    w.videos.Owns pid v (some video) ∧ video.status = .failed
  | .headRaw video loaded row | .setPending video loaded row =>
    (w.videos.Owns pid v (some video) ∧ video.status = .failed) ∧
      w.jobs.Owns pid (transcodeJob v) (some row) ∧ loaded.status = .failed

/-- What a process owns at its program point. -/
def Proc.Holds (S : Settings) (pid : Pid) (w : World) : Proc → Prop
  | .transcode e pc => ExecuteTranscode.Holds pid e w pc
  | .onFailure e _ _ pc => TerminalFailure.Holds pid e w pc
  | .recover pc => RecoverStaleJobs.Holds S pid w pc
  | .abandoned pc => CleanupAbandonedUploads.Holds pid w pc
  | .initiate req pc => InitiateUpload.Holds pid req w pc
  | .complete req pc => CompleteUpload.Holds pid req w pc
  | .cancelUpload v pc => CancelUpload.Holds pid v w pc
  | .deleteFailed v pc => DeleteFailedVideo.Holds pid v w pc
  | .cancelProcessing v _ pc => CancelProcessing.Holds pid v w pc
  | .requeueProcessing v pc => RequeueProcessing.Holds pid v w pc
  | .worker | .cvStage .. | .dispatch _ | .rawDeletes .. | .client .. | .clock | .done => True

/-- No turn of another session changes what a process holds. -/
theorem Proc.Holds.frame {i : Pid} (hf : Frame pid w w') (hi : i ≠ pid) {p : Proc}
    (h : p.Holds S i w) : p.Holds S i w' := by
  have hj {k r} : w.jobs.Owns i k (some r) → w'.jobs.Owns i k (some r) := hf.jobs i hi k r
  have hv {k o} : w.videos.Owns i k o → w'.videos.Owns i k o := hf.videos i hi k o
  have ha {k o} : w.accounts.Owns i k o → w'.accounts.Owns i k o := hf.accounts i hi k o
  have hu {n} : n < w.uuid → n < w'.uuid := fun h => Nat.lt_of_lt_of_le h hf.uuid
  cases p with
  | transcode e pc =>
    cases pc <;> try trivial
    case materialize => exact h.imp_left hj
    case setProcessed => exact h.imp_left hj
    case setQueued job =>
      cases job with
      | none => trivial
      | some => exact h.imp_left hj
    case setFailed job =>
      cases job with
      | none => trivial
      | some => exact h.imp_left hj
  | onFailure e err failVideo pc =>
    cases pc <;> try trivial
    case setFailed job =>
      cases job with
      | none => trivial
      | some => exact h.imp_left hj
  | recover pc =>
    cases pc <;> try trivial
    case failJob job rest locked turns =>
      cases locked with
      | false => trivial
      | true =>
        intro x hx
        obtain ⟨ho, hr, n, hn, hs⟩ := h x hx
        exact ⟨hj ho, hr, n, Nat.le_trans hn hf.now, hs⟩
    case setFailed job failed time rest turns =>
      cases failed with
      | none => trivial
      | some => exact h.imp_left hj
  | abandoned pc =>
    cases pc <;> try trivial
    case sumReserved moved _ _ _ =>
      cases moved with
      | none => trivial
      | some => exact h.imp_left hv
    case release moved _ _ _ _ _ =>
      cases moved with
      | none => trivial
      | some => exact h.imp_left hv
  | initiate req pc =>
    cases pc <;> try trivial
    case checkUploadQuota => exact ⟨ha h.1, hf.links ▸ h.2⟩
    case checkStorageQuota => exact ⟨ha h.1, hf.links ▸ h.2⟩
    case flushVideo => exact ⟨ha h.1, hf.links ▸ h.2⟩
    case presign => exact ⟨ha h.1, hf.links ▸ h.2.1, hv h.2.2.1, hu h.2.2.2⟩
    case insertVideo => exact ⟨ha h.1, hf.links ▸ h.2.1, hv h.2.2.1, hu h.2.2.2⟩
  | complete req pc => cases pc <;> first | trivial | exact h.imp_left hv
  | cancelUpload v pc => cases pc <;> first | trivial | exact h.imp_left hv
  | deleteFailed v pc => cases pc <;> first | trivial | exact h.imp_left hv
  | cancelProcessing v userId pc =>
    cases pc <;> first
      | trivial
      | exact h.imp_left hv
      | exact ⟨h.1.imp_left hv, h.2.imp_left hj⟩
  | requeueProcessing v pc =>
    cases pc <;> first
      | trivial
      | exact h.imp_left hv
      | exact ⟨h.1.imp_left hv, h.2.imp_left hj⟩
  | worker | cvStage | dispatch | rawDeletes | client | clock | done => trivial

/-! ### Sound turns -/

/-- A turn that is permitted, and after which the process holds what its program point says. -/
def Turn.Sound (S : Settings) (pid : Pid) (w : World) (t : Turn) : Prop :=
  ∀ p e, t = some (p, e) → e.Permitted pid w ∧ p.Holds S pid (w.apply pid e)

section Rules

variable {p : Proc} {j : JobId} {v : VideoId} {log : List (AuditAction × Resource)}

theorem sound_none : Turn.Sound S pid w none := fun _ _ h => by cases h

theorem sound_some {e : Effect} (he : e.Permitted pid w) (hp : p.Holds S pid (w.apply pid e)) :
    Turn.Sound S pid w (some (p, e)) := by
  rintro _ _ ⟨rfl, rfl⟩
  exact ⟨he, hp⟩

theorem sound_skip (hp : p.Holds S pid w) : Turn.Sound S pid w (some (p, .skip)) :=
  sound_some trivial hp

theorem sound_audit (hp : ∀ w, p.Holds S pid w) :
    Turn.Sound S pid w (some (p, .commit { auditLogs := log })) :=
  sound_some (by simp [Effect.Permitted]) (hp _)

theorem sound_locate {K R : Type} {t : Table K R Pid} {k : K} {q : R → Bool}
    {f : Option R → Proc × Effect}
    (h : ∀ o, t.Located pid k q o → Turn.Sound S pid w (some (f o))) :
    Turn.Sound S pid w (t.locate pid k q f) := by
  intro p e he
  obtain ⟨o, ho, he⟩ := Table.locate_eq_some.mp he
  exact h o ho p e (congrArg some he)

theorem sound_updateJob {u : Update ProcessingJob} {next : Option ProcessingJob → Proc}
    (hp : ∀ o w, (next o).Holds S pid w) :
    Turn.Sound S pid w (updateJob w pid j u log next) := by
  refine sound_locate fun o ho => sound_some ?_ (hp _ _)
  cases ho with
  | miss => simp [Effect.Permitted]
  | hit _ _ hf => simp [Effect.Permitted, hf]

theorem sound_updateVideo {u : Update Video} {jobs : List (JobId × ProcessingJob)}
    {next : Option Video → Proc} (hj : ∀ e ∈ jobs, w.jobs.Free pid e.1 ∨ w.jobs.row e.1 = none)
    (hp : ∀ o w, (next o).Holds S pid w) :
    Turn.Sound S pid w (updateVideo w pid v u jobs log next) := by
  refine sound_locate fun o ho => sound_some ⟨hj, ?_, by simp⟩ (hp _ _)
  cases ho with
  | miss => simp
  | hit _ _ hf => simpa using hf

theorem owns_lock_job {r : ProcessingJob} (h : w.jobs.row j = some r) :
    (w.apply pid (.lock [j] [] [])).jobs.Owns pid j (some r) :=
  h ▸ Table.owns_acquireAll (List.mem_singleton_self j)

theorem owns_lock_video {r : Video} (h : w.videos.row v = some r) :
    (w.apply pid (.lock [] [v] [])).videos.Owns pid v (some r) :=
  h ▸ Table.owns_acquireAll (List.mem_singleton_self v)

theorem sound_lock_job (hf : w.jobs.Free pid j)
    (hp : p.Holds S pid (w.apply pid (.lock [j] [] []))) :
    Turn.Sound S pid w (some (p, .lock [j] [] [])) :=
  sound_some ⟨by simpa using hf, by simp, by simp⟩ hp

theorem sound_lock_video (hf : w.videos.Free pid v)
    (hp : p.Holds S pid (w.apply pid (.lock [] [v] []))) :
    Turn.Sound S pid w (some (p, .lock [] [v] [])) :=
  sound_some ⟨by simp, by simpa using hf, by simp⟩ hp

theorem sound_lockAndSetJob {u : Update ProcessingJob}
    {next : Option (ProcessingJob × ProcessingJob) → Proc} (hn : ∀ w, (next none).Holds S pid w)
    (hp : ∀ r w, u.cond r = true → w.jobs.Owns pid j (some r) →
      (next (some (r, u.set r))).Holds S pid w) :
    Turn.Sound S pid w (lockAndSetJob w pid j u next) := by
  refine sound_locate fun o ho => ?_
  cases ho with
  | miss => exact sound_some (by simp [Effect.Permitted]) (hn _)
  | hit hr hc hf => exact sound_lock_job hf (hp _ _ hc (owns_lock_job hr))

end Rules

theorem ExecuteTranscode.step_sound {e : Execution} {a : Answer} {pc : ExecuteTranscode.Pc}
    (h : ExecuteTranscode.Holds pid e w pc) :
    Turn.Sound S pid w (ExecuteTranscode.step S pid e w a pc) := by
  have hb {n next} (hn : ∀ w, ExecuteTranscode.Holds pid e w next) :
      Turn.Sound S pid w (heartbeat pid e w n next) := sound_updateJob fun _ => hn
  cases pc with
  | loadJob =>
    simp only [step]
    split
    · exact sound_skip trivial
    · split <;> exact sound_skip trivial
  | claimJob =>
    simp only [step]
    exact sound_updateJob fun o _ => by cases o <;> trivial
  | setProcessing =>
    simp only [step]
    exact sound_updateVideo (by simp) fun _ _ => trivial
  | heartbeat10 => exact hb fun _ => trivial
  | loadVideo =>
    simp only [step]
    split
    · exact sound_skip trivial
    · split <;> exact sound_skip trivial
  | verifyStorage video =>
    simp only [step, raise]
    split
    · exact sound_skip trivial
    · split
      · split <;> exact sound_skip trivial
      · exact sound_skip trivial
  | heartbeat50 video verification => exact hb fun _ => trivial
  | download video verification =>
    simp only [step, raise]
    split
    · exact hb fun _ => trivial
    · split
      · exact sound_skip trivial
      · split <;> exact sound_skip trivial
    · exact sound_skip trivial
  | transcode video verification =>
    simp only [step, raise]
    split
    · exact hb fun _ => trivial
    · split <;> exact sound_skip trivial
    · exact sound_skip trivial
    · exact sound_none
  | uploadOutput video verification sha256 size =>
    simp only [step]
    split
    · exact hb fun _ => trivial
    · split <;> split <;> exact sound_some trivial trivial
  | headOutput video verification sha256 =>
    simp only [step, raise]
    split
    · exact hb fun _ => trivial
    · split
      · split
        · exact sound_skip trivial
        · split <;> exact sound_skip trivial
      · exact sound_skip trivial
  | lockJob video verification artifact =>
    simp only [step]
    refine sound_locate fun o ho => ?_
    cases ho with
    | miss => exact sound_audit fun _ => trivial
    | hit hr hc hf => exact sound_lock_job hf ⟨owns_lock_job hr, hc⟩
  | materialize video verification artifact job =>
    simp only [step]
    exact sound_updateVideo (by simp) fun o _ => by cases o <;> trivial
  | auditOutput verification artifact => exact sound_audit fun _ => trivial
  | heartbeat80 verification artifact => exact hb fun _ => trivial
  | completeJob verification artifact =>
    simp only [step]
    exact sound_lockAndSetJob (fun _ => trivial) fun r _ hc ho => ⟨ho, _, _, hc, rfl⟩
  | setProcessed job completed =>
    simp only [step]
    refine sound_updateVideo ?_ fun _ _ => trivial
    intro x hx
    rcases List.mem_cons.mp hx with rfl | hx
    · exact .inl h.1.free
    · right
      split at hx
      · cases hx
      · exact (of_mem_queueNextStage hx).2.1
  | deleteOutput artifact =>
    simp only [step]
    split <;> exact sound_some trivial trivial
  | checkActive err =>
    simp only [step]
    split
    · exact sound_skip trivial
    · split
      · split <;> exact sound_skip trivial
      · exact sound_skip trivial
  | releaseJob err previous =>
    simp only [step]
    exact sound_lockAndSetJob (fun _ => trivial) fun r _ hc ho => ⟨ho, _, _, hc, rfl⟩
  | setQueued err job =>
    simp only [step]
    refine sound_updateVideo ?_ fun _ _ => trivial
    cases job with
    | none => simp
    | some r => simpa using .inl h.1.free
  | failJob err =>
    simp only [step]
    exact sound_lockAndSetJob (fun _ => trivial) fun r _ hc ho => ⟨ho, _, _, _, _, hc, rfl⟩
  | setFailed job =>
    simp only [step]
    refine sound_updateVideo ?_ fun _ _ => trivial
    cases job with
    | none => simp
    | some r => simpa using .inl h.1.free
  | retry err =>
    simp only [step]
    split
    · exact sound_some trivial trivial
    · exact sound_some trivial trivial
    · exact sound_none
theorem ExecuteCvStage.step_sound {e : Execution} {a : Answer} {pc : ExecuteCvStage.Pc} :
    Turn.Sound S pid w (ExecuteCvStage.step S pid e w a pc) := by
  cases pc with
  | loadJob =>
    simp only [step]
    split
    · exact sound_skip trivial
    · split <;> exact sound_skip trivial
  | claimJob =>
    simp only [step]
    exact sound_updateJob fun o _ => by cases o <;> trivial
  | auditStarted => exact sound_audit fun _ => trivial
  | loadVideo =>
    simp only [step]
    split
    · exact sound_skip trivial
    · split <;> exact sound_skip trivial
  | loadUpstream =>
    simp only [step]
    split
    · exact sound_audit fun _ => trivial
    · split <;> exact sound_skip trivial
  | heartbeat25 | heartbeat75 | failJob =>
    simp only [step]
    exact sound_updateJob fun _ _ => trivial
  | selectArtifact =>
    simp only [step]
    split <;> first | exact sound_skip trivial | exact sound_none
  | completeJob contractOnly =>
    simp only [step]
    split
    · exact sound_audit fun _ => trivial
    · refine sound_locate fun o ho => sound_some ⟨?_, by simp, by simp⟩ trivial
      intro x hx
      rcases List.mem_append.mp hx with hx | hx
      · cases ho with
        | miss => cases hx
        | hit _ _ hf => exact .inl (by rw [List.mem_singleton.mp hx]; exact hf)
      · exact .inr (of_mem_queueNextStage hx).2.1

theorem TerminalFailure.step_sound {e : Execution} {err : TaskError} {failVideo : Bool}
    {pc : TerminalFailure.Pc} (h : TerminalFailure.Holds pid e w pc) :
    Turn.Sound S pid w (TerminalFailure.step pid e err failVideo w pc) := by
  cases pc with
  | getJob =>
    simp only [step]
    split <;> exact sound_skip trivial
  | failJob =>
    simp only [step]
    exact sound_lockAndSetJob (fun _ => trivial) fun r _ hc ho => ⟨ho, _, _, _, _, hc, rfl⟩
  | setFailed job =>
    have hj : ∀ x ∈ (job.map fun r => (e.job, r.2)).toList,
        w.jobs.Free pid x.1 ∨ w.jobs.row x.1 = none := by
      cases job with
      | none => simp
      | some r => simpa using .inl h.1.free
    simp only [step]
    split
    · exact sound_updateVideo hj fun _ _ => trivial
    · exact sound_some ⟨hj, by simp, by simp⟩ trivial

/-! ### Maintenance passes -/

theorem DispatchPendingJobs.step_sound {a : Answer} {pc : DispatchPendingJobs.Pc} :
    Turn.Sound S pid w (DispatchPendingJobs.step S pid w a pc) := by
  cases pc with
  | select =>
    simp only [step]
    split
    · split <;> first | exact sound_skip trivial | exact sound_none
    · exact sound_none
  | enqueue job rest dispatched =>
    simp only [step]
    split <;> split <;> exact sound_some trivial trivial
  | record job taskId rest dispatched =>
    simp only [step]
    refine sound_locate fun o ho => ?_
    cases ho with
    | miss => exact sound_skip trivial
    | hit _ _ hf => exact sound_some (by simp [Effect.Permitted, hf]) trivial
  | finished => exact sound_none

/-- What a query with a condition returns satisfies it. -/
theorem isQueryResult_all {K : Type} [DecidableEq K] {all : List K} {p : K → Bool}
    {limit : Option ℕ} {ids : List K} (h : isQueryResult all p limit ids = true) :
    ∀ k ∈ ids, p k = true := by
  simp only [isQueryResult, Bool.and_eq_true, List.all_eq_true] at h
  exact h.1.2

theorem isQueryResult_nodup {K : Type} [DecidableEq K] {all : List K} {p : K → Bool}
    {limit : Option ℕ} {ids : List K} (h : isQueryResult all p limit ids = true) : ids.Nodup := by
  simp only [isQueryResult, Bool.and_eq_true, decide_eq_true_eq] at h
  exact h.1.1

theorem Table.nodup_rows {K R T : Type} {t : Table K R T} {ks : List K} (h : ks.Nodup) :
    ((t.rows ks).map Prod.fst).Nodup := by
  refine h.sublist ?_
  clear h
  induction ks with
  | nil => exact .slnil
  | cons k ks ih =>
    rw [Table.rows, List.filterMap_cons]
    cases t.row k with
    | none => exact ih.cons _
    | some r => exact ih.cons_cons _

theorem Table.mem_rows {K R T : Type} {t : Table K R T} {ks : List K} {x : K × R} :
    x ∈ t.rows ks ↔ x.1 ∈ ks ∧ t.row x.1 = some x.2 := by
  simp only [Table.rows, List.mem_filterMap, Option.map_eq_some_iff]
  constructor
  · rintro ⟨k, hk, r, hr, rfl⟩
    exact ⟨hk, hr⟩
  · rintro ⟨hk, hr⟩
    exact ⟨x.1, hk, x.2, hr, rfl⟩

theorem RecoverStaleJobs.holds_loop_false {turns : List RecoverTurn}
    {todo : List (JobId × ProcessingJob)} :
    RecoverStaleJobs.Holds S pid w (loop false turns todo) := by
  cases todo <;> trivial

theorem RecoverStaleJobs.step_sound {a : Answer} {pc : RecoverStaleJobs.Pc}
    (h : RecoverStaleJobs.Holds S pid w pc) :
    Turn.Sound S pid w (RecoverStaleJobs.step S pid w a pc) := by
  cases pc with
  | select =>
    simp only [step]
    split
    · next ids =>
      split
      · next hq =>
        have hids : ∀ j ∈ ids, w.jobs.Free pid j ∧ (w.jobs.row j).any fun r =>
            decide (r.status = .running) && isStale S w.now r := fun j hj => by
          simpa using isQueryResult_all hq j hj
        refine sound_some ⟨fun j hj => (hids j hj).1, by simp, by simp⟩ ?_
        cases hrows : w.jobs.rows ids with
        | nil => trivial
        | cons y ys =>
          intro x hx
          rw [← hrows, Table.mem_rows] at hx
          obtain ⟨-, hr⟩ := hids x.1 hx.1
          rw [hx.2, Option.any_some, Bool.and_eq_true, decide_eq_true_eq] at hr
          exact ⟨hx.2 ▸ Table.owns_acquireAll hx.1, hr.1, w.now, Nat.le_refl _, hr.2⟩
      · exact sound_none
    · exact sound_none
  | failJob job rest locked turns =>
    obtain ⟨j, row⟩ := job
    simp only [step]
    exact sound_lockAndSetJob (fun _ => trivial) fun r _ hc ho => ⟨ho, _, _, _, _, hc, rfl⟩
  | setFailed job failed time rest turns =>
    obtain ⟨j, row⟩ := job
    simp only [step]
    refine sound_updateVideo ?_ fun _ _ => holds_loop_false
    cases failed with
    | none => simp
    | some r => simpa using .inl h.1.free
  | finished => exact sound_none

theorem CleanupAbandonedUploads.holds_loop {turns : List AbandonedTurn}
    {todo : List (VideoId × Video)} : CleanupAbandonedUploads.Holds pid w (loop turns todo) := by
  cases todo <;> trivial

theorem CleanupAbandonedUploads.step_sound {a : Answer} {pc : CleanupAbandonedUploads.Pc}
    (h : CleanupAbandonedUploads.Holds pid w pc) :
    Turn.Sound S pid w (CleanupAbandonedUploads.step S pid w a pc) := by
  cases pc with
  | select =>
    simp only [step]
    split
    · split <;> first | exact sound_skip holds_loop | exact sound_none
    · exact sound_none
  | cleanStorage video rest turns =>
    obtain ⟨v, row⟩ := video
    simp only [step]
    split
    · split <;> exact sound_some trivial trivial
    · split <;> exact sound_some trivial trivial
    · exact sound_skip trivial
  | setFailed video cleaned rest turns =>
    obtain ⟨v, row⟩ := video
    simp only [step]
    refine sound_locate fun o ho => ?_
    cases ho with
    | miss => exact sound_skip trivial
    | hit hr hc hf =>
      exact sound_lock_video hf ⟨owns_lock_video hr, by simpa [failUpload] using hc⟩
  | sumReserved video moved cleaned rest turns =>
    obtain ⟨v, row⟩ := video
    refine sound_skip ?_
    cases moved with
    | none => trivial
    | some r => exact h
  | release video moved cleaned account net rest turns =>
    obtain ⟨v, row⟩ := video
    refine sound_some ⟨by simp, ?_, by simp⟩ holds_loop
    cases moved with
    | none => simp
    | some r => simpa using h.1.free
  | finished => exact sound_none

theorem RawDeletes.step_sound {pass : RawPass} {a : Answer} {pc : RawDeletes.Pc} :
    Turn.Sound S pid w (RawDeletes.step S pass pid w a pc) := by
  cases pc with
  | select =>
    simp only [step]
    split
    · split
      · next ids =>
        split
        · next hq =>
          refine sound_some ⟨by simp, fun v hv => ?_, by simp⟩ trivial
          have := isQueryResult_all hq v hv
          simp only [decide_eq_true_eq] at this
          exact this.1
        · exact sound_none
      · exact sound_none
    · exact sound_skip trivial
  | request video rest now deleted | markFailed video rest now deleted
  | markDeleted video rest now deleted =>
    obtain ⟨v, row⟩ := video
    simp only [step]
    exact sound_updateVideo (by simp) fun _ _ => trivial
  | deleteObject video rest now deleted =>
    obtain ⟨v, row⟩ := video
    refine sound_some ?_ trivial
    cases row.storageKeyRaw with
    | none => trivial
    | some key => by_cases ha : a.applied = true <;> simp [ha, Effect.Permitted]
  | finished => exact sound_none

/-! ### Requests -/

theorem InitiateUpload.step_sound {req : InitiateUpload} {a : Answer} {pc : InitiateUpload.Pc}
    (h : InitiateUpload.Holds pid req w pc) :
    Turn.Sound S pid w (InitiateUpload.step S pid req w a pc) := by
  cases pc with
  | lockAccount =>
    simp only [step]
    split
    · exact sound_none
    · next account hl =>
      split
      · exact sound_audit fun _ => trivial
      · next plan hp =>
        split
        · next hf =>
          exact sound_some ⟨by simp, by simp, by simpa using hf⟩
            ⟨hp ▸ Table.owns_acquireAll (List.mem_singleton_self _), hl⟩
        · exact sound_none
  | checkUploadQuota account plan =>
    simp only [step]
    split
    · exact sound_skip h
    · exact sound_audit fun _ => trivial
  | checkStorageQuota account plan =>
    simp only [step]
    split
    · exact sound_skip h
    · exact sound_audit fun _ => trivial
  | flushVideo account plan =>
    simp only [step]
    split
    · split
      · next hn =>
        refine sound_some hn.2 ⟨h.1, h.2, ?_, Nat.lt_succ_self _⟩
        exact hn.1 ▸ Table.owns_acquireAll (List.mem_singleton_self _)
      · exact sound_none
    · exact sound_audit fun _ => trivial
  | presign account plan video =>
    simp only [step]
    split
    · split
      · exact sound_skip h
      · exact sound_some trivial ⟨h.1, h.2.1, h.2.2.1, Nat.lt_succ_of_lt h.2.2.2⟩
    · exact sound_audit fun _ => trivial
  | insertVideo account plan video uploadId =>
    exact sound_some ⟨by simp, by simpa using h.2.2.1.free, by simp⟩ trivial

theorem CompleteUpload.step_sound {req : CompleteUpload} {a : Answer} {pc : CompleteUpload.Pc}
    (h : CompleteUpload.Holds pid req w pc) :
    Turn.Sound S pid w (CompleteUpload.step S pid req w a pc) := by
  cases pc with
  | lockVideo =>
    simp only [step]
    refine sound_locate fun o ho => ?_
    cases ho with
    | miss => exact sound_skip trivial
    | hit hr hc hf =>
      dsimp only
      split
      · next hs =>
        split
        · exact sound_lock_video hf ⟨owns_lock_video hr, hs.1⟩
        · exact sound_skip trivial
        · exact sound_lock_video hf ⟨owns_lock_video hr, hs.1⟩
      · exact sound_skip trivial
  | completeMultipart video id o =>
    simp only [step]
    split
    · exact sound_skip trivial
    · refine sound_some ?_ ?_
      · split <;> trivial
      · split <;> split <;> trivial
  | verifyObject video =>
    simp only [step]
    split
    · exact sound_skip trivial
    · split
      · split <;> exact sound_skip h
      · exact sound_skip trivial
  | deleteRawObject video =>
    refine sound_some ?_ trivial
    cases video.storageKeyRaw with
    | none => trivial
    | some key => by_cases ha : a.applied = true <;> simp [ha, Effect.Permitted]
  | queueTranscode video =>
    simp only [step]
    split
    · exact sound_audit fun _ => trivial
    · next hn =>
      exact sound_some ⟨by simpa using .inr hn, by simpa using h.1.free, by simp⟩ trivial
  | auditFailure => exact sound_audit fun _ => trivial

theorem CancelUpload.step_sound {v : VideoId} {a : Answer} {pc : CancelUpload.Pc}
    (h : CancelUpload.Holds pid v w pc) :
    Turn.Sound S pid w (CancelUpload.step S pid v w a pc) := by
  cases pc with
  | lockVideo =>
    simp only [step]
    refine sound_locate fun o ho => ?_
    cases ho with
    | miss => exact sound_skip trivial
    | hit hr hc hf =>
      dsimp only
      split
      · next hs => exact sound_lock_video hf ⟨owns_lock_video hr, hs.1⟩
      · exact sound_skip trivial
  | cleanStorage video =>
    simp only [step]
    split
    · refine sound_some ?_ ?_
      · split <;> trivial
      · split <;> split <;> trivial
    · refine sound_some ?_ ?_
      · split <;> trivial
      · split <;> exact h
    · exact sound_skip h
  | rollback => exact sound_audit fun _ => trivial
  | sumReserved video => exact sound_skip h
  | release video account net =>
    exact sound_some ⟨by simp, by simpa using h.1.free, by simp⟩ trivial

theorem DeleteFailedVideo.holds_next {v : VideoId} {video : Video} {failures : List StorageHandle}
    {handles : List StorageHandle} (h : w.videos.Owns pid v (some video) ∧
      (video.status = .failed ∨ video.status = .pendingUpload)) :
    DeleteFailedVideo.Holds pid v w (next video failures handles) := by
  cases handles with
  | nil => by_cases hf : failures = [] <;> simp only [next, hf, if_true, if_false] <;> exact h
  | cons => exact h

theorem DeleteFailedVideo.step_sound {v : VideoId} {a : Answer} {pc : DeleteFailedVideo.Pc}
    (h : DeleteFailedVideo.Holds pid v w pc) :
    Turn.Sound S pid w (DeleteFailedVideo.step S pid v w a pc) := by
  cases pc with
  | lockVideo =>
    simp only [step]
    refine sound_locate fun o ho => ?_
    cases ho with
    | miss => exact sound_skip trivial
    | hit hr hc hf =>
      dsimp only
      split
      · next hs =>
        refine sound_lock_video hf ?_
        split
        · split
          · exact holds_next ⟨owns_lock_video hr, hs⟩
          · exact ⟨owns_lock_video hr, hs⟩
        · exact ⟨owns_lock_video hr, hs⟩
      · exact sound_skip trivial
  | cleanStorage video handle rest failures =>
    simp only [step]
    refine sound_some ?_ ?_
    · split
      · cases handle <;> trivial
      · trivial
    · split
      · cases handle <;> exact holds_next h
      · exact holds_next h
  | markFailed video =>
    exact sound_some ⟨by simp, by simpa using h.1.free, by simp⟩ trivial
  | sumReserved video => exact sound_skip h
  | release video account net =>
    simp only [step]
    split
    · next hf =>
      refine sound_some ⟨by simp, by simp, ?_⟩ trivial
      simp only [List.mem_singleton, forall_eq]
      exact ⟨h.1.free, fun s => hf s s.mem_all⟩
    · exact sound_none

theorem CancelProcessing.step_sound {v : VideoId} {userId : UserId} {pc : CancelProcessing.Pc}
    (h : CancelProcessing.Holds pid v w pc) :
    Turn.Sound S pid w (CancelProcessing.step pid v userId w pc) := by
  cases pc with
  | lockVideo =>
    simp only [step]
    refine sound_locate fun o ho => ?_
    cases ho with
    | miss => exact sound_skip trivial
    | hit hr hc hf =>
      dsimp only
      split
      · next hs => exact sound_lock_video hf ⟨owns_lock_video hr, hs⟩
      · exact sound_skip trivial
  | loadJob video => exact sound_skip h
  | lockJob video loaded =>
    simp only [step]
    refine sound_locate fun o ho => ?_
    cases ho with
    | miss => exact sound_audit fun _ => trivial
    | hit hr hc hf =>
      dsimp only
      split
      · next hs =>
        exact sound_lock_job hf ⟨⟨h.1.acquireAll, h.2⟩, owns_lock_job hr, hs⟩
      · exact sound_audit fun _ => trivial
  | setFailed video loaded row =>
    exact sound_some ⟨by simpa using .inl h.2.1.free, by simpa using h.1.1.free, by simp⟩ trivial

theorem RequeueProcessing.step_sound {v : VideoId} {a : Answer} {pc : RequeueProcessing.Pc}
    (h : RequeueProcessing.Holds pid v w pc) :
    Turn.Sound S pid w (RequeueProcessing.step S pid v w a pc) := by
  cases pc with
  | lockVideo =>
    simp only [step]
    refine sound_locate fun o ho => ?_
    cases ho with
    | miss => exact sound_skip trivial
    | hit hr hc hf =>
      dsimp only
      split
      · next hs => exact sound_lock_video hf ⟨owns_lock_video hr, hs⟩
      · exact sound_skip trivial
  | loadJob video => exact sound_skip h
  | lockJob video loaded =>
    simp only [step]
    refine sound_locate fun o ho => ?_
    cases ho with
    | miss => exact sound_audit fun _ => trivial
    | hit hr hc hf =>
      dsimp only
      split
      · next hs =>
        exact sound_lock_job hf ⟨⟨h.1.acquireAll, h.2⟩, owns_lock_job hr, hs.1⟩
      · exact sound_audit fun _ => trivial
  | headRaw video loaded row =>
    simp only [step]
    split
    · split
      · exact sound_skip h
      · exact sound_audit fun _ => trivial
    · exact sound_audit fun _ => trivial
  | setPending video loaded row =>
    exact sound_some ⟨by simpa using .inl h.2.1.free, by simpa using h.1.1.free, by simp⟩ trivial

/-! ### All processes -/

theorem Message.holds_start (m : Message) : m.start.Holds S pid w := by
  unfold Message.start
  split <;> trivial

/-- **Turns are sound.** -/
theorem Proc.step_sound {a : Answer} {p : Proc} (h : p.Holds S pid w) :
    Turn.Sound S pid w (p.step S pid a w) := by
  by_cases ha : ∃ message, a = .error message
  · obtain ⟨message, rfl⟩ := ha
    intro p' e he
    obtain ⟨q, hq, he⟩ := Option.map_eq_some_iff.mp he
    cases he
    refine ⟨by simp [Effect.Permitted], ?_⟩
    cases p with
    | transcode e pc => cases hq; cases pc <;> trivial
    | _ => cases hq <;> trivial
  · have hs : p.step S pid a w = p.turn S pid a w := by
      cases a <;> first | rfl | exact absurd ⟨_, rfl⟩ ha
    rw [hs]
    cases p with
    | worker =>
      intro p' e he
      simp only [turn] at he
      split at he
      · obtain ⟨m, -, hm⟩ := Option.map_eq_some_iff.mp he
        cases hm
        exact ⟨by split <;> trivial, m.holds_start⟩
      · cases he
    | transcode e pc => exact ExecuteTranscode.step_sound h
    | cvStage e pc => exact ExecuteCvStage.step_sound
    | onFailure e err failVideo pc => exact TerminalFailure.step_sound h
    | dispatch pc => exact DispatchPendingJobs.step_sound
    | recover pc => exact RecoverStaleJobs.step_sound h
    | abandoned pc => exact CleanupAbandonedUploads.step_sound h
    | rawDeletes pass pc => exact RawDeletes.step_sound
    | initiate req pc => exact InitiateUpload.step_sound h
    | complete req pc => exact CompleteUpload.step_sound h
    | cancelUpload v pc => exact CancelUpload.step_sound h
    | deleteFailed v pc => exact DeleteFailedVideo.step_sound h
    | cancelProcessing v userId pc => exact CancelProcessing.step_sound h
    | requeueProcessing v pc => exact RequeueProcessing.step_sound h
    | client v o =>
      simp only [turn]
      split <;> first | exact sound_some trivial trivial | exact sound_none
    | clock =>
      simp only [turn]
      split <;> first | exact sound_some trivial trivial | exact sound_none
    | done => exact sound_none

/-! ### Jobs and videos alone -/

/-- What a process owns of the jobs and videos at its program point. Only a request for an upload
holds more than that, an account and a link. -/
def Proc.HoldsRows (S : Settings) (pid : Pid) (w : World) : Proc → Prop
  | .initiate _ (.presign _ _ video) | .initiate _ (.insertVideo _ _ video _) =>
    w.videos.Owns pid video none ∧ video < w.uuid
  | .initiate _ _ => True
  | p => p.Holds S pid w

theorem Proc.Holds.rows {p : Proc} (h : p.Holds S pid w) : p.HoldsRows S pid w := by
  cases p with
  | initiate req pc => cases pc <;> first | trivial | exact h.2.2
  | _ => exact h

theorem Proc.HoldsRows.holds {p : Proc} (h : p.HoldsRows S pid w)
    (hp : ¬ ∃ req pc, p = .initiate req pc) : p.Holds S pid w := by
  cases p with
  | initiate req pc => exact (hp ⟨req, pc, rfl⟩).elim
  | _ => exact h

theorem InitiateUpload.step_rows {req : InitiateUpload} {a : Answer} {pc : InitiateUpload.Pc}
    {p : Proc} {e : Effect} (h : (Proc.initiate req pc).HoldsRows S pid w)
    (hs : InitiateUpload.step S pid req w a pc = some (p, e)) :
    e.Permitted pid w ∧ p.HoldsRows S pid (w.apply pid e) := by
  have hdeny {log} : (Effect.commit { auditLogs := log }).Permitted pid w := by
    simp [Effect.Permitted]
  cases pc <;> simp only [step, deny] at hs
  case lockAccount =>
    split at hs
    · cases hs
    · split at hs
      · cases hs
        exact ⟨hdeny, trivial⟩
      · split at hs
        · next hf =>
          cases hs
          exact ⟨⟨by simp, by simp, by simpa using hf⟩, trivial⟩
        · cases hs
  case checkUploadQuota | checkStorageQuota =>
    split at hs <;> cases hs
    · exact ⟨trivial, trivial⟩
    · exact ⟨hdeny, trivial⟩
  case flushVideo =>
    split at hs
    · split at hs
      · next hn =>
        cases hs
        exact ⟨hn.2, hn.1 ▸ Table.owns_acquireAll (List.mem_singleton_self _), Nat.lt_succ_self _⟩
      · cases hs
    · cases hs
      exact ⟨hdeny, trivial⟩
  case presign =>
    split at hs
    · split at hs <;> cases hs
      · exact ⟨trivial, h⟩
      · exact ⟨trivial, h.1, Nat.lt_succ_of_lt h.2⟩
    · cases hs
      exact ⟨hdeny, trivial⟩
  case insertVideo =>
    cases hs
    exact ⟨⟨by simp, by simpa using h.1.free, by simp⟩, trivial⟩

/-- Turns are sound even if accounts and links have changed. -/
theorem Proc.step_rows {a : Answer} {p p' : Proc} {e : Effect} (h : p.HoldsRows S pid w)
    (hs : p.step S pid a w = some (p', e)) :
    e.Permitted pid w ∧ p'.HoldsRows S pid (w.apply pid e) := by
  by_cases hp : ∃ req pc, p = .initiate req pc
  · obtain ⟨req, pc, rfl⟩ := hp
    by_cases ha : ∃ message, a = .error message
    · obtain ⟨message, rfl⟩ := ha
      cases hs
      exact ⟨by simp [Effect.Permitted], trivial⟩
    · rw [show (Proc.initiate req pc).step S pid a w = InitiateUpload.step S pid req w a pc from by
        cases a <;> first | rfl | exact absurd ⟨_, rfl⟩ ha] at hs
      exact InitiateUpload.step_rows h hs
  · obtain ⟨he, hp'⟩ := Proc.step_sound (h.holds hp) _ _ hs
    exact ⟨he, hp'.rows⟩

theorem Proc.HoldsRows.frame {i : Pid} (hf : Frame pid w w') (hi : i ≠ pid) {p : Proc}
    (h : p.HoldsRows S i w) : p.HoldsRows S i w' := by
  by_cases hp : ∃ req pc, p = .initiate req pc
  · obtain ⟨req, pc, rfl⟩ := hp
    cases pc <;> first
      | trivial
      | exact ⟨hf.videos i hi _ _ h.1, Nat.lt_of_lt_of_le h.2 hf.uuid⟩
  · exact ((h.holds hp).frame hf hi).rows

/-! ### Runs -/

/-- A process that has not begun owns nothing. -/
theorem Proc.IsFresh.holds {p : Proc} (h : p.IsFresh) : p.Holds S pid w := by
  cases p with
  | worker | cvStage | dispatch | rawDeletes | client | clock | done => trivial
  | transcode | onFailure => exact h.elim
  | recover pc | abandoned pc | initiate _ pc | complete _ pc | cancelUpload _ pc
  | deleteFailed _ pc | cancelProcessing _ _ pc | requeueProcessing _ pc =>
    cases pc <;> trivial

/-- **In every run, every process owns what its program point says.** -/
theorem holds_of_reach {ok : State → Pid → Answer → Prop} {c : State}
    (h : (system S).Reach Deployed ok c) : ∀ i, (c.procs i).Holds S i c.world := by
  refine h.forall_local (L := fun i p w => p.Holds S i w) (fun c hc i => (hc.2 i).holds) ?_ ?_
  · intro i a p w p' w' hp hs
    obtain ⟨⟨q, e⟩, ht, hq⟩ := Option.map_eq_some_iff.mp hs
    cases hq
    exact (Proc.step_sound hp q e ht).2
  · intro i a p w p' w' hp hs j q hj hq
    obtain ⟨⟨r, e⟩, ht, hr⟩ := Option.map_eq_some_iff.mp hs
    cases hr
    exact hq.frame (apply_frame (Proc.step_sound hp r e ht).1) hj

end NextBallUp
