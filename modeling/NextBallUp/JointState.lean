import NextBallUp.Commits

/-!
# The joint state of a video and its transcode job

A video and its transcode job are two rows, moved by many processes. Together they are meant to be
one thing with six phases. This module says what the phases are and how a video may go from one to
the next, and proves that the processes keep to it as long as two kinds of turn do not happen: a
session that has failed no transcode job marks a video FAILED that is still to be processed, or a
job is completed while its video is not PROCESSING. Both can happen.

## Main definitions

* `Phase`, `Phase.Next`: the life of a video
* `World.phase`: the phase that the two rows are in, if they are in one
* `JointlyConsistent`: what the statuses of a video and its transcode job say about each other
* `KeepsJointState`: the condition on a turn

## Main results

* `phase_of_reach`: in every run of turns that satisfy the condition, every video is in a phase
* `jointlyConsistent_of_reach`: **the two rows are consistent in every such run**
* `not_jointlyConsistent_after`: a turn that violates the condition leaves an inconsistent video
-/

namespace NextBallUp

variable {S : Settings} {w w' : World} {pid : Pid} {p : Proc}

/-! ### Phases -/

/-- The life of a video, in which the transcode job is a part of it. -/
inductive Phase
  | absent
  | pendingUpload
  /-- Queued or processing, with a job that is pending or running. -/
  | active
  | processed
  /-- Failed without ever having had a job. -/
  | failedUpload
  | failedJob
  deriving DecidableEq, Repr

/-- The phase of a video, from the statuses of its two rows. -/
def Phase.of : Option VideoStatus → Option ProcessingJobStatus → Option Phase
  | none, none => some .absent
  | some .pendingUpload, none => some .pendingUpload
  | some .queued, some .pending | some .queued, some .running
  | some .processing, some .pending | some .processing, some .running => some .active
  | some .processed, some .completed => some .processed
  | some .failed, none => some .failedUpload
  | some .failed, some .failed => some .failedJob
  | _, _ => none

/-- How a video goes from one phase to the next. -/
inductive Phase.Next : Phase → Phase → Prop
  | stay (q : Phase) : Next q q
  | initiate : Next .absent .pendingUpload
  | complete : Next .pendingUpload .active
  | abandon : Next .pendingUpload .failedUpload
  | process : Next .active .processed
  | fail : Next .active .failedJob
  | requeue : Next .failedJob .active
  | delete {q : Phase} : q = .pendingUpload ∨ q = .failedUpload ∨ q = .failedJob → Next q .absent

/-- The phase of a video in a world. -/
def World.phase (w : World) (v : VideoId) : Option Phase :=
  Phase.of ((w.videos.row v).map Video.status) ((w.jobs.row (transcodeJob v)).map (·.status))

/-- What the statuses of a video and its transcode job say about each other. -/
structure JointlyConsistent (video : Option Video) (job : Option ProcessingJob) : Prop where
  pendingUpload : ∀ r, video = some r → r.status = .pendingUpload → job = none
  active : ∀ r, video = some r → r.status = .queued ∨ r.status = .processing →
    ∃ j, job = some j ∧ (j.status = .pending ∨ j.status = .running)
  processed : ∀ r, video = some r → r.status = .processed →
    ∃ j, job = some j ∧ j.status = .completed
  completed : ∀ j, job = some j → j.status = .completed →
    ∃ r, video = some r ∧ r.status = .processed
  failed : ∀ r, video = some r → r.status = .failed → ∀ j, job = some j → j.status = .failed

theorem Phase.of_eq_some {vs : Option VideoStatus} {js : Option ProcessingJobStatus} {q : Phase} :
    Phase.of vs js = some q ↔
      (vs = none ∧ js = none ∧ q = .absent) ∨
      (vs = some .pendingUpload ∧ js = none ∧ q = .pendingUpload) ∨
      ((vs = some .queued ∨ vs = some .processing) ∧ (js = some .pending ∨ js = some .running) ∧
        q = .active) ∨
      (vs = some .processed ∧ js = some .completed ∧ q = .processed) ∨
      (vs = some .failed ∧ js = none ∧ q = .failedUpload) ∨
      (vs = some .failed ∧ js = some .failed ∧ q = .failedJob) := by
  rcases vs with _ | vs <;> rcases js with _ | js <;> (try cases vs) <;> (try cases js) <;>
    simp [Phase.of, eq_comm]

theorem jointlyConsistent_of_phase {v : VideoId} {q : Phase} (h : w.phase v = some q) :
    JointlyConsistent (w.videos.row v) (w.jobs.row (transcodeJob v)) := by
  rw [World.phase, Phase.of_eq_some] at h
  simp only [Option.map_eq_some_iff, Option.map_eq_none_iff] at h
  constructor <;> grind

/-! ### The condition -/

/-- The next turn of the process fails no video that is still to be processed without failing its
transcode job, and completes no transcode job without its video. -/
def Proc.keepsJointState (w : World) : Proc → Bool
  | .transcode e (.setFailed none) =>
    (w.videos.row e.job.videoId).all fun r => r.status ≠ .queued ∧ r.status ≠ .processing
  | .recover (.setFailed job failed _ _ _) =>
    (failed.isSome ∧ job.1.stage = .transcode) ∨
      (w.videos.row job.1.videoId).all fun r => r.status ≠ .queued ∧ r.status ≠ .processing
  | .transcode e (.setProcessed _ _) =>
    (w.videos.row e.job.videoId).any fun r => r.status = .processing
  | _ => true

/-- The condition on a turn. A statement that raises writes nothing. -/
def KeepsJointState (c : State) (i : Pid) (a : Answer) : Prop :=
  a.isError ∨ (c.procs i).keepsJointState c.world

instance (c : State) (i : Pid) (a : Answer) : Decidable (KeepsJointState c i a) :=
  inferInstanceAs (Decidable (_ ∨ _))

/-! ### One commit -/

/-- Both phases exist, and the second may follow the first. -/
def Phase.Advances (o o' : Option Phase) : Prop := ∃ q q', o = some q ∧ o' = some q' ∧ q.Next q'

section Moves

variable {vs vs' : Option VideoStatus} {js js' : Option ProcessingJobStatus} {q : Phase}

theorem Phase.advances_self {o : Option Phase} (h : o = some q) : Advances o o :=
  ⟨q, q, h, h, .stay q⟩

theorem Phase.of_eq_active : Phase.of vs js = some .active ↔
    (vs = some .queued ∨ vs = some .processing) ∧ (js = some .pending ∨ js = some .running) := by
  simp [of_eq_some]

theorem Phase.active_of_job (h : Phase.of vs js = some q)
    (hj : js = some .pending ∨ js = some .running) : q = .active := by
  rcases of_eq_some.mp h with h | h | h | h | h | h <;> grind

theorem Phase.active_of_video (h : Phase.of vs js = some q)
    (hv : vs = some .queued ∨ vs = some .processing) : q = .active := by
  rcases of_eq_some.mp h with h | h | h | h | h | h <;> grind

theorem Phase.advances_active (h : Phase.of vs js = some .active)
    (hv : vs' = some .queued ∨ vs' = some .processing)
    (hj : js' = some .pending ∨ js' = some .running) :
    Advances (Phase.of vs js) (Phase.of vs' js') :=
  ⟨.active, .active, h, of_eq_active.mpr ⟨hv, hj⟩, .stay _⟩

theorem Phase.advances_abandon (h : Phase.of (some .pendingUpload) js = some q) :
    Advances (Phase.of (some .pendingUpload) js) (Phase.of (some .failed) js) := by
  obtain ⟨rfl, -⟩ : js = none ∧ q = .pendingUpload := by simpa [of_eq_some] using h
  exact ⟨_, _, rfl, rfl, .abandon⟩

end Moves

theorem phase_of_video {v : VideoId} {r : Video} (h : w.videos.row v = some r) :
    w.phase v = Phase.of (some r.status) ((w.jobs.row (transcodeJob v)).map (·.status)) := by
  rw [World.phase, h, Option.map_some]

theorem phase_of_job {j : JobId} {r : ProcessingJob} (hs : j.stage = .transcode)
    (h : w.jobs.row j = some r) :
    w.phase j.videoId = Phase.of ((w.videos.row j.videoId).map Video.status) (some r.status) := by
  rw [World.phase, transcodeJob_videoId hs, h, Option.map_some]

/-- The transaction writes no status of the video and its transcode job. -/
structure Tx.KeepsPhase (w : World) (tx : Tx) (v : VideoId) : Prop where
  videos : ∀ e ∈ tx.videos, e.1 = v → (w.videos.row v).map Video.status = some e.2.status
  jobs : ∀ e ∈ tx.jobs, e.1 = transcodeJob v →
    (w.jobs.row (transcodeJob v)).map (·.status) = some e.2.status
  deleted : v ∉ tx.deleted

theorem map_row_putAll {K R B : Type} [DecidableEq K] (f : R → B) {t : Table K R Pid} {k : K}
    {l : List (K × R)} (h : ∀ e ∈ l, e.1 = k → (t.row k).map f = some (f e.2)) :
    ((t.putAll l).row k).map f = (t.row k).map f := by
  induction l generalizing t with
  | nil => rfl
  | cons e l ih =>
    have he : ((t.put e.1 e.2).row k).map f = (t.row k).map f := by
      rw [Table.row_put]
      split
      · next hk => exact (h e (List.mem_cons_self ..) hk.symm).symm
      · rfl
    rw [Table.putAll_cons, ih, he]
    intro e' he' hk
    rw [he]
    exact h e' (List.mem_cons_of_mem _ he') hk

theorem Tx.KeepsPhase.phase_commit {tx : Tx} {v : VideoId} (h : tx.KeepsPhase w v) :
    (w.commit pid tx).phase v = w.phase v := by
  have hd := h.deleted
  simp only [World.phase, World.row_videos_commit, World.row_jobs_commit, hd, transcodeJob,
    if_false, map_row_putAll Video.status h.videos]
  rw [← transcodeJob, map_row_putAll (fun r : ProcessingJob => r.status) h.jobs]

/-- The transaction writes no other video than `v`, and no other transcode job than that of `v`. -/
structure Tx.Within (tx : Tx) (v : VideoId) : Prop where
  videos : ∀ e ∈ tx.videos, e.1 = v
  jobs : ∀ e ∈ tx.jobs, e.1.stage = .transcode → e.1.videoId = v
  deleted : ∀ u ∈ tx.deleted, u = v

theorem Tx.Within.keepsPhase {tx : Tx} {v u : VideoId} (h : tx.Within v) (hu : u ≠ v) :
    tx.KeepsPhase w u where
  videos e he hk := absurd (hk.symm.trans (h.videos e he)) hu
  jobs e he hk := by
    have := h.jobs e he
    rw [hk] at this
    exact absurd (this rfl) hu
  deleted hd := hu (h.deleted u hd)

theorem row_putAll_transcode {t : Table JobId ProcessingJob Pid} {j : JobId} {x : ProcessingJob}
    {rest : List (JobId × ProcessingJob)} (hs : j.stage = .transcode)
    (hrest : ∀ e ∈ rest, e.1.stage ≠ .transcode) :
    (t.putAll ((j, x) :: rest)).row (transcodeJob j.videoId) = some x := by
  rw [Table.putAll_cons, transcodeJob_videoId hs,
    Table.row_putAll_of_ne fun e he hk => hrest e he (hk ▸ hs), Table.row_put, if_pos rfl]

section Commit

variable {tx : Tx} {u v : VideoId} {r : Video} {j : JobId} {x : ProcessingJob}

/-- A transaction that writes one video and no transcode job. -/
theorem advances_video (hall : ∀ v, ∃ q, w.phase v = some q) (htv : tx.videos = [(u, r)])
    (htj : ∀ e ∈ tx.jobs, e.1.stage ≠ .transcode) (htd : tx.deleted = [])
    (h : Phase.Advances (w.phase u)
      (Phase.of (some r.status) ((w.jobs.row (transcodeJob u)).map (·.status)))) :
    Phase.Advances (w.phase v) ((w.commit pid tx).phase v) := by
  obtain ⟨q, hq⟩ := hall v
  by_cases hv : v = u
  · subst hv
    have hj : (w.jobs.putAll tx.jobs).row (transcodeJob v) = w.jobs.row (transcodeJob v) :=
      Table.row_putAll_of_ne fun e he hk => htj e he (hk ▸ rfl)
    simpa [World.phase, htv, htd, Table.row_put, hj] using h
  · have hw : tx.Within u := ⟨by simp [htv], fun e he hs => absurd hs (htj e he), by simp [htd]⟩
    rw [(hw.keepsPhase hv).phase_commit]
    exact Phase.advances_self hq

/-- A transaction that writes one job and no video. -/
theorem advances_job (hall : ∀ v, ∃ q, w.phase v = some q) (htv : tx.videos = [])
    (htj : tx.jobs = [(j, x)]) (htd : tx.deleted = [])
    (h : j.stage = .transcode → Phase.Advances (w.phase j.videoId)
      (Phase.of ((w.videos.row j.videoId).map Video.status) (some x.status))) :
    Phase.Advances (w.phase v) ((w.commit pid tx).phase v) := by
  obtain ⟨q, hq⟩ := hall v
  by_cases hv : transcodeJob v = j
  · subst hv
    simpa [World.phase, htv, htd, htj, Table.row_put, transcodeJob] using h rfl
  · rw [Tx.KeepsPhase.phase_commit ⟨by simp [htv], by simp [htj, Ne.symm hv], by simp [htd]⟩]
    exact Phase.advances_self hq

/-- A transaction that writes one video and its transcode job, and perhaps jobs of other stages. -/
theorem advances_both (hall : ∀ v, ∃ q, w.phase v = some q) {rest : List (JobId × ProcessingJob)}
    (htv : tx.videos = [(j.videoId, r)]) (htj : tx.jobs = (j, x) :: rest)
    (hrest : ∀ e ∈ rest, e.1.stage ≠ .transcode) (htd : tx.deleted = [])
    (hs : j.stage = .transcode)
    (h : Phase.Advances (w.phase j.videoId) (Phase.of (some r.status) (some x.status))) :
    Phase.Advances (w.phase v) ((w.commit pid tx).phase v) := by
  obtain ⟨q, hq⟩ := hall v
  by_cases hv : v = j.videoId
  · subst hv
    have hj : (w.jobs.putAll tx.jobs).row (transcodeJob j.videoId) = some x :=
      htj ▸ row_putAll_transcode hs hrest
    simpa [World.phase, htv, htd, Table.row_put, hj] using h
  · have hw : tx.Within j.videoId := ⟨by simp [htv], by
      simp only [htj, List.mem_cons, forall_eq_or_imp]
      exact ⟨fun _ => trivial, fun e he hs => absurd hs (hrest e he)⟩, by simp [htd]⟩
    rw [(hw.keepsPhase hv).phase_commit]
    exact Phase.advances_self hq

/-- A video is to be processed while its transcode job is open. -/
theorem active_of_open {q : Phase} (hq : w.phase j.videoId = some q) (hs : j.stage = .transcode)
    (hj : w.jobs.row j = some x) (hx : x.status = .pending ∨ x.status = .running) :
    w.phase j.videoId = some .active := by
  rw [phase_of_job hs hj] at hq ⊢
  rw [hq, Phase.active_of_job hq (by simpa using hx)]

theorem World.phase_eq_active : w.phase v = some .active ↔
    (∃ r, w.videos.row v = some r ∧ (r.status = .queued ∨ r.status = .processing)) ∧
      ∃ x, w.jobs.row (transcodeJob v) = some x ∧
        (x.status = .pending ∨ x.status = .running) := by
  simp only [World.phase, Phase.of_eq_active, Option.map_eq_some_iff]
  grind

/-- A session that fails the transcode job also fails the video. -/
theorem advances_failed {new : VideoStatus} {allowed : List VideoStatus} {o : Option Video}
    {log : List (AuditAction × Resource)} {y : ProcessingJob}
    (hall : ∀ v, ∃ q, w.phase v = some q) (hs : j.stage = .transcode)
    (hj : w.jobs.row j = some x) (hx : x.status = .pending ∨ x.status = .running)
    (hy : y.status = .failed) (ha : allowed = [] ∨ (.queued ∈ allowed ∧ .processing ∈ allowed))
    (ho : w.videos.Located pid j.videoId (setVideoStatus new allowed).cond o) :
    Phase.Advances (w.phase v) ((w.commit pid
      { videos := (o.map fun r => (j.videoId, { r with status := .failed })).toList,
        jobs := [(j, y)], auditLogs := log }).phase v) := by
  obtain ⟨q, hq⟩ := hall j.videoId
  have hact := active_of_open hq hs hj hx
  obtain ⟨⟨r, hr, hst⟩, -⟩ := World.phase_eq_active.mp hact
  have hc : (setVideoStatus new allowed).cond r = true := by
    simp only [setVideoStatus, decide_eq_true_eq]
    grind
  cases ho with
  | miss hm => exact absurd hc (by simp [hm r hr])
  | hit hr' =>
    refine advances_both hall rfl rfl (by simp) rfl hs ?_
    rw [hy]
    exact ⟨_, _, hact, rfl, .fail⟩

/-- A session that only changes other columns of a video. -/
theorem advances_same_status (hall : ∀ v, ∃ q, w.phase v = some q) {r' : Video}
    (htv : tx.videos = [(u, r')]) (htj : tx.jobs = []) (htd : tx.deleted = [])
    (hr : w.videos.row u = some r) (hs : r'.status = r.status) :
    Phase.Advances (w.phase v) ((w.commit pid tx).phase v) := by
  refine advances_video hall htv (by simp [htj]) htd ?_
  obtain ⟨q, hq⟩ := hall u
  rw [phase_of_video hr] at hq ⊢
  rw [hs]
  exact Phase.advances_self hq

/-- A video that is to be processed remains so, whatever its status was. -/
theorem advances_active_video (hall : ∀ v, ∃ q, w.phase v = some q) {r' : Video}
    (htv : tx.videos = [(u, r')]) (htj : tx.jobs = []) (htd : tx.deleted = [])
    (hr : w.videos.row u = some r) (hs : r.status = .queued ∨ r.status = .processing)
    (hs' : r'.status = .queued ∨ r'.status = .processing) :
    Phase.Advances (w.phase v) ((w.commit pid tx).phase v) := by
  refine advances_video hall htv (by simp [htj]) htd ?_
  obtain ⟨q, hq⟩ := hall u
  rw [phase_of_video hr] at hq ⊢
  obtain rfl := Phase.active_of_video hq (by simpa using hs)
  exact Phase.advances_active hq (by simpa using hs') (Phase.of_eq_active.mp hq).2

/-- An upload that is given up. -/
theorem advances_failUpload (hall : ∀ v, ∃ q, w.phase v = some q)
    (htv : tx.videos = [(u, CleanupAbandonedUploads.failUpload.set r)]) (htj : tx.jobs = [])
    (htd : tx.deleted = []) (hr : w.videos.row u = some r) (hs : r.status = .pendingUpload) :
    Phase.Advances (w.phase v) ((w.commit pid tx).phase v) := by
  refine advances_video hall htv (by simp [htj]) htd ?_
  obtain ⟨q, hq⟩ := hall u
  rw [phase_of_video hr, hs] at hq ⊢
  exact Phase.advances_abandon hq

end Commit

/-- **A turn that satisfies the condition moves every video along its life.** -/
theorem commit_phase {tx : Tx} (hr : p.Routed) (hk : p.keepsJointState w)
    (hall : ∀ v, ∃ q, w.phase v = some q) (h : Commits S pid w p tx) (v : VideoId) :
    Phase.Advances (w.phase v) ((w.commit pid tx).phase v) := by
  have stay (hs : tx.KeepsPhase w v) :
      Phase.Advances (w.phase v) ((w.commit pid tx).phase v) := by
    obtain ⟨q, hq⟩ := hall v
    rw [hs.phase_commit]
    exact Phase.advances_self hq
  cases h with
  | nothing => exact stay ⟨by simp, by simp, by simp⟩
  | @claim e _ _ _ hj hs =>
    refine advances_job hall rfl rfl rfl fun hst => ?_
    obtain ⟨q, hq⟩ := hall e.job.videoId
    have hact := active_of_open hq hst hj (.inl hs)
    exact Phase.advances_active hact (Phase.of_eq_active.mp hact).1 (.inr rfl)
  | @heartbeat e _ _ _ _ _ hj =>
    refine advances_job hall rfl rfl rfl fun hst => ?_
    obtain ⟨q, hq⟩ := hall e.job.videoId
    rw [phase_of_job hst hj] at hq ⊢
    exact Phase.advances_self hq
  | setProcessing _ hv hs => exact advances_active_video hall rfl rfl rfl hv hs (.inr rfl)
  | materialize _ _ _ hv => exact advances_same_status hall rfl rfl rfl hv rfl
  | @setProcessed e job completed o queued log hpc hj hx ho hqueued =>
    subst hpc
    obtain ⟨r, hv, hs⟩ : ∃ r, w.videos.row e.job.videoId = some r ∧ r.status = .processing := by
      simpa [Proc.keepsJointState, Option.any_eq_true] using hk
    obtain ⟨q, hq⟩ := hall e.job.videoId
    have hact := active_of_open hq hr hj (.inr hx.running)
    have hrest : ∀ x ∈ queued, x.1.stage ≠ .transcode := by
      rcases hqueued with rfl | ⟨rfl, -⟩
      · simp
      · exact fun x hx => (of_mem_queueNextStage hx).1
    cases ho with
    | miss hm => exact absurd (hm r hv) (by simp [setVideoStatus, hs])
    | hit =>
      refine advances_both hall rfl rfl hrest rfl hr ?_
      rw [hx.completed]
      exact ⟨_, _, hact, rfl, .process⟩
  | @setQueued e err job o log hpc hx ho =>
    subst hpc
    cases job with
    | none =>
      cases ho with
      | miss => exact stay ⟨by simp, by simp, by simp⟩
      | @hit r hv hc =>
        have hc : r.status = .processing ∨ r.status = .queued := by simpa [setVideoStatus] using hc
        exact advances_active_video hall rfl rfl rfl hv hc.symm (.inl rfl)
    | some x =>
      obtain ⟨hj, hf⟩ := hx x rfl
      obtain ⟨q, hq⟩ := hall e.job.videoId
      have hact := active_of_open hq hr hj (.inr hf.running)
      have hact' := Phase.of_eq_active.mp hact
      cases ho with
      | miss hm =>
        refine advances_job hall rfl rfl rfl fun _ => ?_
        exact Phase.advances_active hact hact'.1 (.inl (by rw [hf.pending]))
      | hit =>
        refine advances_both hall rfl rfl (by simp) rfl hr ?_
        exact Phase.advances_active hact (.inl rfl) (.inl (by rw [hf.pending]))
  | @setFailed e job o log hpc hx ho =>
    subst hpc
    cases job with
    | none =>
      cases ho with
      | miss => exact stay ⟨by simp, by simp, by simp⟩
      | @hit r hv hc =>
        have hc : r.status = .processing ∨ r.status = .queued := by simpa [setVideoStatus] using hc
        have hk : r.status ≠ .queued ∧ r.status ≠ .processing := by
          simpa [Proc.keepsJointState, hv] using hk
        exact absurd hk (by tauto)
    | some x =>
      obtain ⟨hj, hf⟩ := hx x rfl
      exact advances_failed hall hr hj hf.open hf.failed (.inr (by simp)) ho
  | @hookFailed e err x o log hpc hj hf ho =>
    subst hpc
    exact advances_failed hall (hr.mp rfl) hj hf.open hf.failed (.inl rfl) ho
  | hookFailedJob hpc =>
    subst hpc
    refine advances_job hall rfl rfl rfl fun hst => ?_
    exact absurd (hr.mpr hst) (by simp)
  | @cvComplete e b o log hpc ho =>
    subst hpc
    refine stay ⟨by simp, ?_, by simp⟩
    intro x hx hk
    have hst : x.1.stage = .transcode := hk ▸ rfl
    rcases List.mem_append.mp hx with hx | hx
    · obtain ⟨r, -, rfl⟩ : ∃ r, o = some r ∧ _ = x := by simpa using hx
      exact absurd hst hr
    · exact absurd hst (of_mem_queueNextStage hx).1
  | cvFailed hpc =>
    subst hpc
    exact advances_job hall rfl rfl rfl fun hst => absurd hst hr
  | @record j _ _ _ _ _ _ hj =>
    refine advances_job hall rfl rfl rfl fun hst => ?_
    obtain ⟨q, hq⟩ := hall j.videoId
    rw [phase_of_job hst hj] at hq ⊢
    exact Phase.advances_self hq
  | @recoverFailed job failed time rest turns o log hpc hx ho =>
    subst hpc
    by_cases hst : failed.isSome ∧ job.1.stage = .transcode
    · obtain ⟨x, rfl⟩ := Option.isSome_iff_exists.mp hst.1
      obtain ⟨hj, hf⟩ := hx x rfl
      exact advances_failed hall hst.2 hj hf.open hf.failed (.inr (by simp)) ho
    · cases ho with
      | miss =>
        cases failed with
        | none => exact stay ⟨by simp, by simp, by simp⟩
        | some x => exact advances_job hall rfl rfl rfl fun h => absurd ⟨rfl, h⟩ hst
      | @hit r hv hc =>
        have hc : r.status = .processing ∨ r.status = .queued := by simpa [setVideoStatus] using hc
        have hk : r.status ≠ .queued ∧ r.status ≠ .processing := by
          simpa [Proc.keepsJointState, hst, hv] using hk
        exact absurd hk (by tauto)
  | abandonedRelease hpc hv =>
    rename_i moved _ _ _ _ _ _
    cases moved with
    | none => exact stay ⟨by simp, by simp, by simp⟩
    | some r =>
      obtain ⟨hv, hs⟩ := hv r rfl
      exact advances_failUpload hall rfl rfl rfl hv hs
  | raw _ _ hv hr' => exact advances_same_status hall rfl rfl rfl hv hr'.status
  | @insertVideo _ _ _ v _ _ _ hv =>
    refine advances_video hall rfl (by simp) rfl ?_
    obtain ⟨q, hq⟩ := hall v
    simp only [World.phase, hv, Option.map_none] at hq ⊢
    obtain ⟨hj, -⟩ : (w.jobs.row (transcodeJob v)).map (·.status) = none ∧ q = .absent := by
      simpa [Phase.of_eq_some] using hq
    rw [hj]
    exact ⟨_, _, rfl, rfl, .initiate⟩
  | queueTranscode _ hv hs hj =>
    refine advances_both hall rfl rfl (by simp) rfl rfl ?_
    refine ⟨.pendingUpload, .active, ?_, rfl, .complete⟩
    rw [videoId_transcodeJob, phase_of_video hv, hs, hj]
    rfl
  | cancelUpload _ hv hs => exact advances_failUpload hall rfl rfl rfl hv hs
  | markFailed _ hv => exact advances_same_status hall rfl rfl rfl hv rfl
  | @deleteVideo u video _ _ _ _ hv hs =>
    obtain ⟨q, hq⟩ := hall u
    by_cases h : v = u
    · subst h
      refine ⟨q, .absent, hq, by simp [World.phase, transcodeJob, Phase.of], .delete ?_⟩
      simp only [World.phase, hv, Option.map_some, Phase.of_eq_some] at hq
      grind
    · exact stay ⟨by simp, by simp, by simpa using h⟩
  | @cancelProcessing v _ video loaded row _ _ hv hs hj hl =>
    refine advances_both hall rfl rfl (by simp) rfl rfl ?_
    obtain ⟨q, hq⟩ := hall v
    have hact : w.phase v = some .active := by
      rw [phase_of_video hv] at hq ⊢
      rw [hq, Phase.active_of_video hq (by simpa using hs.symm)]
    refine ⟨_, _, hact, ?_, .fail⟩
    simp [ProcessingJob.flush, CancelProcessing.cancelled, hl, Phase.of]
  | @requeueProcessing v video loaded row _ _ hv hs hj hl =>
    refine advances_both hall rfl rfl (by simp) rfl rfl ?_
    obtain ⟨q, hq⟩ := hall v
    rw [phase_of_video hv, hs, hj, Option.map_some] at hq
    obtain ⟨hrow, -⟩ : row.status = .failed ∧ q = .failedJob := by
      simpa [Phase.of_eq_some] using hq
    refine ⟨.failedJob, .active, ?_, ?_, .requeue⟩
    · rw [videoId_transcodeJob, phase_of_video hv, hs, hj, Option.map_some, hrow]
      rfl
    · simp [ProcessingJob.flush, RequeueProcessing.requeued, hl, Phase.of]

/-! ### Runs -/

theorem phase_of_not_commit {f : Effect} (hf : ∀ tx, f ≠ .commit tx) (v : VideoId) :
    (w.apply pid f).phase v = w.phase v := by
  obtain ⟨hv, hj, -⟩ := @rows_of_not_commit w pid f hf
  rw [World.phase, hv, hj, World.phase]

/-- A turn that satisfies the condition moves every video along its life. -/
theorem step_phase {c : State} {i : Pid} {a : Answer} {f : Effect} (hc : c.Sound S)
    (hk : KeepsJointState c i a) (hall : ∀ v, ∃ q, c.world.phase v = some q)
    (hs : (c.procs i).step S i a c.world = some (p, f)) (v : VideoId) :
    Phase.Advances (c.world.phase v) ((c.world.apply i f).phase v) := by
  by_cases hf : ∃ tx, f = .commit tx
  · obtain ⟨tx, rfl⟩ := hf
    rcases hk with ha | hk
    · obtain ⟨message, rfl⟩ := Answer.isError_iff.mp ha
      obtain ⟨-, he⟩ := Proc.step_error.mp hs
      cases he
      exact commit_phase (p := .done) trivial rfl hall (Commits.nothing (S := S)) v
    · exact commit_phase (hc.routed i) hk hall (Proc.commits (hc.holds i) hs) v
  · obtain ⟨q, hq⟩ := hall v
    rw [phase_of_not_commit fun tx h => hf ⟨tx, h⟩]
    exact Phase.advances_self hq

theorem phase_of_reach {c : State} (h : (system S).Reach Deployed KeepsJointState c) :
    ∀ v, ∃ q, c.world.phase v = some q := by
  refine invariant_of_reach (Q := fun c => ∀ v, ∃ q, c.world.phase v = some q) ?_ ?_ h
  · rintro c ⟨⟨accounts, links, hw⟩, -⟩ v
    exact ⟨.absent, by rw [hw]; rfl⟩
  · intro c i a p f hc hall hk hs v
    obtain ⟨_, q', -, hq', -⟩ := step_phase (sound_of_reach hc) hk hall hs v
    exact ⟨q', hq'⟩

/-- **A video and its transcode job are consistent in every state of every run whose turns satisfy
the condition.** -/
theorem jointlyConsistent_of_reach {c : State} (h : (system S).Reach Deployed KeepsJointState c)
    (v : VideoId) :
    JointlyConsistent (c.world.videos.row v) (c.world.jobs.row (transcodeJob v)) := by
  obtain ⟨q, hq⟩ := phase_of_reach h v
  exact jointlyConsistent_of_phase hq

/-! ### The condition is exact -/

/-- A video that fails although its transcode job is open. -/
theorem not_jointlyConsistent_of_failed {v : VideoId} {r : Video} {o : Option Video}
    {jobs : List (JobId × ProcessingJob)} {log : List (AuditAction × Resource)} {q : Phase}
    (hq : w.phase v = some q) (hv : w.videos.row v = some r)
    (hs : r.status = .queued ∨ r.status = .processing)
    (ho : w.videos.Located pid v (setVideoStatus .failed [.processing, .queued]).cond o)
    (hj : ∀ e ∈ jobs, e.1 ≠ transcodeJob v) :
    ¬ JointlyConsistent ((w.commit pid
        { videos := (o.map fun r => (v, { r with status := .failed })).toList, jobs,
          auditLogs := log }).videos.row v)
      ((w.commit pid
        { videos := (o.map fun r => (v, { r with status := .failed })).toList, jobs,
          auditLogs := log }).jobs.row (transcodeJob v)) := by
  have hact : w.phase v = some .active := by
    rw [phase_of_video hv] at hq ⊢
    rw [hq, Phase.active_of_video hq (by simpa using hs)]
  obtain ⟨-, x, hx, hst⟩ := World.phase_eq_active.mp hact
  have hrow : (w.jobs.putAll jobs).row (transcodeJob v) = some x := by
    rw [Table.row_putAll_of_ne fun e he => (hj e he).symm, hx]
  cases ho with
  | miss hm =>
    have hn := hm r hv
    rcases hs with hs | hs <;> simp [setVideoStatus, hs] at hn
  | hit =>
    intro h
    simp only [World.row_videos_commit, World.row_jobs_commit, List.not_mem_nil, if_false,
      Option.map_some, Option.toList_some, Table.putAll_cons, Table.putAll_nil, Table.row_put,
      if_true, hrow] at h
    have hf := h.failed _ rfl rfl x rfl
    rcases hst with hst | hst <;> simp [hst] at hf

theorem exists_open_of_not_all {o : Option Video}
    (h : ¬ (o.all fun r => r.status ≠ .queued ∧ r.status ≠ .processing) = true) :
    ∃ r, o = some r ∧ (r.status = .queued ∨ r.status = .processing) := by
  cases o with
  | none => simp at h
  | some r =>
    refine ⟨r, rfl, ?_⟩
    simp only [Option.all_some, decide_eq_true_eq] at h
    tauto

/-- **A turn that violates the condition leaves an inconsistent video.** -/
theorem not_jointlyConsistent_after {c : State} {i : Pid} {a : Answer} {f : Effect}
    (hc : c.Sound S) (hall : ∀ v, ∃ q, c.world.phase v = some q) (hk : ¬ KeepsJointState c i a)
    (hs : (c.procs i).step S i a c.world = some (p, f)) :
    ∃ v, ¬ JointlyConsistent ((c.after i p f).world.videos.row v)
      ((c.after i p f).world.jobs.row (transcodeJob v)) := by
  obtain ⟨ha, hk⟩ := not_or.mp hk
  rw [Proc.step_of_not_error fun m hm => ha (Answer.isError_iff.mpr ⟨m, hm⟩)] at hs
  have hr := hc.routed i
  have hh := hc.holds i
  generalize c.procs i = p₀ at hk hs hr hh
  unfold Proc.keepsJointState at hk
  split at hk
  · next e =>
    obtain ⟨r, hv, hst⟩ := exists_open_of_not_all hk
    obtain ⟨q, hq⟩ := hall e.job.videoId
    simp only [Proc.turn, ExecuteTranscode.step, updateVideo_eq_some] at hs
    obtain ⟨o, ho, he⟩ := hs
    cases he
    exact ⟨_, not_jointlyConsistent_of_failed hq hv hst ho (by simp)⟩
  · next job failed time rest turns =>
    simp only [decide_eq_true_eq] at hk
    obtain ⟨hk, hv⟩ := not_or.mp hk
    obtain ⟨r, hv, hst⟩ := exists_open_of_not_all hv
    obtain ⟨q, hq⟩ := hall job.1.videoId
    simp only [Proc.turn, RecoverStaleJobs.step, updateVideo_eq_some] at hs
    obtain ⟨o, ho, he⟩ := hs
    cases he
    refine ⟨_, not_jointlyConsistent_of_failed hq hv hst ho ?_⟩
    intro x hx hxj
    obtain ⟨y, rfl, rfl⟩ : ∃ y, failed = some y ∧ (job.1, y.2) = x := by simpa using hx
    exact hk ⟨rfl, congrArg JobId.stage hxj⟩
  · next e job completed =>
    obtain ⟨⟨-, hj⟩, hx⟩ := hh
    obtain ⟨q, hq⟩ := hall e.job.videoId
    have hact := active_of_open hq hr hj (.inr hx.running)
    simp only [Proc.turn, ExecuteTranscode.step, updateVideo_eq_some] at hs
    obtain ⟨o, ho, he⟩ := hs
    cases he
    obtain ⟨⟨r, hv, hst⟩, -⟩ := World.phase_eq_active.mp hact
    cases ho with
    | @hit r' hv' hc' =>
      have hs' : r'.status = .processing := by simpa [setVideoStatus] using hc'
      exact absurd (by simp [hv', hs']) hk
    | miss =>
      refine ⟨e.job.videoId, fun h => ?_⟩
      obtain ⟨r', hr', hp⟩ := h.completed completed (by
        simp only [State.after, World.apply, World.row_jobs_commit, List.not_mem_nil, if_false]
        refine row_putAll_transcode hr fun x hx => ?_
        rw [hv] at hx
        exact (of_mem_queueNextStage hx).1) hx.completed
      have : r = r' := by simpa [State.after, World.apply, hv] using hr'
      subst this
      rcases hst with hst | hst <;> simp [hst] at hp
  · exact absurd rfl hk

/-- A video that is uploaded, dispatched, transcoded and published in a run that satisfies the
condition. -/
theorem exists_jointlyConsistent_processed :
    ∃ c, (system .default).Reach Deployed KeepsJointState c ∧
      ((c.world.videos.row 0).any fun r => r.status = .processed) = true ∧
      JointlyConsistent (c.world.videos.row 0) (c.world.jobs.row (transcodeJob 0)) := by
  obtain ⟨c, hc, hp⟩ := Machine.exists_reach_of_exec (system .default) KeepsJointState
    (deployed_oneUpload [.clock, .dispatch .select, .worker] (by simp [Proc.IsFresh]))
    (deliveryTurns ++ turns 5 8 ++ [(5, .output 9 4)] ++ turns 5 8)
    (fun c => (c.world.videos.row 0).any fun r => r.status = .processed) (by decide +kernel)
  exact ⟨c, hc, hp, jointlyConsistent_of_reach hc 0⟩

/-- A transcode fails, and between the statements of its failure handler a coach cancels and
requeues it: the video is FAILED, and its job PENDING. -/
theorem exists_not_jointlyConsistent :
    ∃ c, (system .default).Reach Deployed Machine.Always c ∧
      ¬ JointlyConsistent (c.world.videos.row 0) (c.world.jobs.row (transcodeJob 0)) := by
  obtain ⟨c, hc, hb⟩ := Machine.exists_reach_of_exec (system .default) Machine.Always
    (deployed_oneUpload [.clock, .dispatch .select, .worker,
      .cancelProcessing 0 1 .lockVideo, .requeueProcessing 0 .lockVideo] (by simp [Proc.IsFresh]))
    (deliveryTurns ++ turns 5 8 ++ [(5, .raised false .processingTranscodeFailed "")] ++
      turns 5 1 ++ turns 6 4 ++ turns 5 1 ++ turns 7 5 ++ turns 5 1)
    (fun c => (c.world.videos.row 0).any (fun r => r.status = .failed) &&
      (c.world.jobs.row (transcodeJob 0)).any fun r => r.status = .pending) (by decide +kernel)
  refine ⟨c, hc, fun h => ?_⟩
  simp only [Bool.and_eq_true, Option.any_eq_true, decide_eq_true_eq] at hb
  obtain ⟨⟨r, hr, hs⟩, j, hj, hp⟩ := hb
  cases hp.symm.trans (h.failed r hr hs j hj)

end NextBallUp
