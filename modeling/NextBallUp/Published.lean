import NextBallUp.Objects

/-!
# The published output

A PROCESSED video promises its players an object: the one under its mezzanine key, with the digest
that the row records. The key depends on the video alone, and every transcode of the video uploads
to it; a transcode that finds itself superseded deletes it again. This module proves the promise
kept as long as no transcode does so at the expense of another that may still publish, or has
published, what it uploaded itself. Nothing in the pipeline prevents that.

## Main definitions

* `Video.isPublished`: the promise
* `Proc.publishes`: an execution that has uploaded and may still publish
* `KeepsOutput`: the condition on a turn

## Main results

* `isPublished_of_reach`: **in every run of turns that satisfy the condition, every PROCESSED video
  is published**
* `exists_not_isPublished`: a cancelled transcode deletes the output of the one that replaced it
-/

namespace NextBallUp

variable {S : Settings} {w w' : World} {pid : Pid} {a : Answer} {p p' : Proc} {f : Effect}

/-- The object has this digest and says so in its metadata. -/
def StoredObject.carries (sha256 : Sha256) (o : StoredObject) : Bool :=
  o.sha256 = sha256 ∧ o.outputSha256 = some sha256

/-- The object at the mezzanine key exists and carries the recorded digest. -/
def Video.isPublished (w : World) (r : Video) : Bool :=
  r.storageKeyMezzanine.any fun key => r.storageOutputSha256.any fun sha256 =>
    (w.objects key).any (·.carries sha256)

/-- The video is still to be processed. -/
def Video.isOpen (r : Video) : Bool := r.status = .queued ∨ r.status = .processing

/-- What the execution has uploaded is still in storage, and what it has recorded is published. -/
def ExecuteTranscode.intact (w : World) (e : Execution) : ExecuteTranscode.Pc → Bool
  | .headOutput _ _ sha256 =>
    (w.objects (storageKeyForMezzanine e.job.videoId)).any (·.carries sha256)
  | .lockJob _ _ artifact | .materialize _ _ artifact _ =>
    (w.objects (storageKeyForMezzanine e.job.videoId)).any (·.carries artifact.outputSha256)
  | .auditOutput .. | .heartbeat80 .. | .completeJob .. | .setProcessed .. =>
    (w.videos.row e.job.videoId).any (·.isPublished w)
  | _ => true

/-- The execution is past its upload and has not ended. -/
def ExecuteTranscode.hasUploaded : ExecuteTranscode.Pc → Bool
  | .headOutput .. | .lockJob .. | .materialize .. | .auditOutput .. | .heartbeat80 ..
  | .completeJob .. | .setProcessed .. => true
  | _ => false

/-- The process is past its upload for video `v`, runs under the task id of the job, and the video
is still to be processed. -/
def Proc.publishes (w : World) (v : VideoId) : Proc → Bool
  | .transcode e pc =>
    e.job = transcodeJob v ∧ ExecuteTranscode.hasUploaded pc ∧
      ((w.jobs.row e.job).any fun r => r.isActive (some e.taskId)) ∧
      (w.videos.row v).any Video.isOpen
  | _ => false

/-- The output of the video is published, or a process may still publish it. -/
def State.Protected (c : State) (v : VideoId) : Prop :=
  ((c.world.videos.row v).any fun r => r.status = .processed) ∨
    ∃ j, (c.procs j).publishes c.world v

/-- The condition on a turn: an execution neither replaces a protected output by a different one
nor deletes it, and claims the job only if the output of every other execution under the same task
id is intact. -/
def KeepsOutput (c : State) (i : Pid) (a : Answer) : Prop :=
  a.isError ∨ match c.procs i with
  | .transcode e .claimJob =>
    ∀ j e' pc, c.procs j = .transcode e' pc → e'.job = e.job → e'.taskId = e.taskId →
      ExecuteTranscode.intact c.world e' pc
  | .transcode e (.uploadOutput _ _ sha256 _) =>
    a.applied → a ≠ .timer → c.Protected e.job.videoId →
      (c.world.objects (storageKeyForMezzanine e.job.videoId)).any (·.carries sha256)
  | .transcode e (.deleteOutput _) => a.applied → ¬ c.Protected e.job.videoId
  | _ => True

/-! ### Publication -/

theorem StoredObject.carries_inj {o : StoredObject} {s t : Sha256} (hs : o.carries s)
    (ht : o.carries t) : s = t := by
  simp only [carries, decide_eq_true_eq] at hs ht
  exact hs.1.symm.trans ht.1

theorem Video.isPublished_iff {v : VideoId} {r : Video} (hr : r.Keyed v) :
    r.isPublished w ↔ r.storageKeyMezzanine = some (storageKeyForMezzanine v) ∧
      ∃ sha256 o, r.storageOutputSha256 = some sha256 ∧
        w.objects (storageKeyForMezzanine v) = some o ∧ o.carries sha256 := by
  simp only [isPublished, Option.any_eq_true]
  constructor
  · rintro ⟨k, hk, s, hs, o, ho, hc⟩
    obtain rfl := hr.mezzanine k hk
    exact ⟨hk, s, o, hs, ho, hc⟩
  · rintro ⟨hk, s, o, hs, ho, hc⟩
    exact ⟨_, hk, s, hs, o, ho, hc⟩

/-- Publication only depends on two columns and the object. -/
theorem Video.isPublished_congr {v : VideoId} {r r' : Video} (hr : r.Keyed v)
    (hk : r'.storageKeyMezzanine = r.storageKeyMezzanine)
    (hs : r'.storageOutputSha256 = r.storageOutputSha256)
    (ho : w'.objects (storageKeyForMezzanine v) = w.objects (storageKeyForMezzanine v))
    (h : r.isPublished w) : r'.isPublished w' := by
  obtain ⟨hkey, s, o, hsha, hobj, hc⟩ := (Video.isPublished_iff hr).mp h
  simp only [isPublished, Option.any_eq_true]
  exact ⟨_, hk.trans hkey, s, hs.trans hsha, o, ho.trans hobj, hc⟩

theorem Proc.publishes_iff {v : VideoId} : p.publishes w v ↔ ∃ e pc, p = .transcode e pc ∧
    e.job = transcodeJob v ∧ ExecuteTranscode.hasUploaded pc ∧
    (∃ x, w.jobs.row (transcodeJob v) = some x ∧ x.isActive (some e.taskId)) ∧
    ∃ r, w.videos.row v = some r ∧ r.isOpen := by
  cases p with
  | transcode e pc =>
    simp only [publishes, decide_eq_true_eq, Option.any_eq_true, transcode.injEq]
    constructor
    · rintro ⟨he, hu, hx, hr⟩
      exact ⟨e, pc, ⟨rfl, rfl⟩, he, hu, he ▸ hx, hr⟩
    · rintro ⟨_, _, ⟨rfl, rfl⟩, he, hu, hx, hr⟩
      exact ⟨he, hu, he ▸ hx, hr⟩
  | _ => simp [publishes]

/-! ### The execution itself -/

/-- How an execution comes to be past its upload, or goes on there. -/
theorem ExecuteTranscode.step_hasUploaded {e : Execution} {pc pc' : Pc}
    (h : step S pid e w a pc = some (.transcode e pc', f)) (hu : hasUploaded pc') :
    (∃ video verification sha256 size, pc = .uploadOutput video verification sha256 size ∧
      pc' = .headOutput video verification sha256 ∧
      f = .putObject (storageKeyForMezzanine e.job.videoId) ⟨size, sha256, none, some sha256⟩) ∨
    (∃ video verification artifact job, pc = .materialize video verification artifact job ∧
      pc' = .auditOutput verification artifact ∧
      ∃ r, w.videos.row e.job.videoId = some r ∧ r.status = .processing ∧
        f = .commit { videos :=
          [(e.job.videoId, (materializeOutputs S w video artifact).set r)] }) ∨
    (hasUploaded pc ∧ (∀ w, intact w e pc → intact w e pc') ∧
      ∀ v, (w.apply pid f).videos.row v = w.videos.row v) := by
  have silent {f : Effect} (hf : ∀ tx, f ≠ .commit tx) :
      ∀ v, (w.apply pid f).videos.row v = w.videos.row v := fun v =>
    congrFun (rows_of_not_commit hf).1 v
  have beat {pc n next} (h : heartbeat pid e w n next = some (.transcode e pc', f))
      (hu : hasUploaded pc) (hi : ∀ w, intact w e pc → intact w e next) :
      hasUploaded pc ∧ (∀ w, intact w e pc → intact w e pc') ∧
        ∀ v, (w.apply pid f).videos.row v = w.videos.row v := by
    obtain ⟨o, -, he⟩ := updateJob_eq_some.mp h
    cases he
    exact ⟨hu, hi, fun v => by simp [World.apply]⟩
  cases pc with
  | uploadOutput video verification sha256 size =>
    simp only [step, heartbeat] at h
    grind [hasUploaded, updateJob_eq_some, Answer.returns, Answer.applied]
  | materialize video verification artifact job =>
    simp only [step, updateVideo_eq_some] at h
    obtain ⟨o, ho, he⟩ := h
    cases ho with
    | miss => cases he; cases hu
    | hit hr hc =>
      cases he
      exact .inr (.inl ⟨_, _, _, _, rfl, rfl, _, hr, by simpa [materializeOutputs] using hc, rfl⟩)
  | headOutput video verification sha256 =>
    right; right
    simp only [step, raise] at h
    split at h
    · exact beat h rfl fun _ h => h
    · split at h
      · split at h
        · cases h; cases hu
        · split at h <;> cases h
          · cases hu
          · exact ⟨rfl, fun _ h => h, silent fun _ h => by cases h⟩
      · cases h; cases hu
  | lockJob video verification artifact =>
    right; right
    simp only [step, Table.locate_eq_some] at h
    obtain ⟨o, ho, he⟩ := h
    cases ho <;> cases he
    · cases hu
    · exact ⟨rfl, fun _ h => h, silent fun _ h => by cases h⟩
  | auditOutput verification artifact =>
    cases h
    exact .inr (.inr ⟨rfl, fun _ h => h, fun v => by simp [World.apply]⟩)
  | heartbeat80 verification artifact => exact .inr (.inr (beat h rfl fun _ h => h))
  | completeJob verification artifact =>
    right; right
    simp only [step, lockAndSetJob_eq_some] at h
    obtain ⟨o, ho, he⟩ := h
    cases ho <;> cases he
    exact ⟨rfl, fun _ h => h, silent fun _ h => by cases h⟩
  | _ =>
    simp only [step, raise, escape, heartbeat, updateJob_eq_some, updateVideo_eq_some,
      lockAndSetJob_eq_some] at h
    grind [updateJob_eq_some, hasUploaded]

theorem transcode_of_hasUploaded {e : Execution} {pc' : ExecuteTranscode.Pc}
    (h : p.step S pid a w = some (.transcode e pc', f)) (hu : ExecuteTranscode.hasUploaded pc') :
    ∃ pc, p = .transcode e pc ∧
      ExecuteTranscode.step S pid e w a pc = some (.transcode e pc', f) := by
  rcases Proc.step_origin h with ⟨-, rfl⟩ | ⟨pc, hp, hs | ⟨err, rfl⟩⟩
  · cases hu
  · exact ⟨pc, hp, hs⟩
  · cases hu

/-! ### The two rows -/

/-- A job becomes RUNNING under a task id only by a claim. -/
theorem JobMove.isActive {j : JobId} {o : Option ProcessingJob} {x' : ProcessingJob} {t : TaskId}
    (h : JobMove w p j o (some x')) (hx : x'.isActive (some t)) :
    (∃ x, o = some x ∧ x.isActive (some t)) ∨
      ∃ e, (p = .transcode e .claimJob ∨ p = .cvStage e .claimJob) ∧ e.job = j ∧ e.taskId = t := by
  rw [ProcessingJob.isActive_some] at hx
  cases h with
  | keep => exact .inl ⟨_, rfl, ProcessingJob.isActive_some.mpr hx⟩
  | claim hp hj => exact .inr ⟨_, hp, hj, Option.some.inj hx.2⟩
  | heartbeat => exact .inl ⟨_, rfl, ProcessingJob.isActive_some.mpr hx⟩
  | insert | record => simp_all [ProcessingJob.new]
  | complete _ _ hx' => cases hx'.completed.symm.trans hx.1
  | completeStage _ _ hx' => cases hx'.completed.symm.trans hx.1
  | release _ _ hx' => cases hx'.pending.symm.trans hx.1
  | fail _ _ hx' | failStage _ _ hx' | hookFail _ _ hx' | recoverFail _ _ hx' =>
    cases hx'.failed.symm.trans hx.1
  | cancelProcessing _ _ hl =>
    simp [ProcessingJob.flush, CancelProcessing.cancelled, hl] at hx
  | requeueProcessing _ _ hl =>
    simp [ProcessingJob.flush, RequeueProcessing.requeued, hl] at hx

theorem Video.isOpen_iff {r : Video} :
    r.isOpen ↔ r.status = .queued ∨ r.status = .processing := by
  simp [isOpen]

/-- Only a completed upload and a requeue open a video. -/
theorem VideoMove.isOpen {v : VideoId} {o : Option Video} {r' : Video}
    (h : VideoMove S w p v o (some r')) (hr : r'.isOpen) :
    (∃ r, o = some r ∧ r.isOpen) ∨
      (∃ req r, p = .complete req (.queueTranscode r) ∧ req.videoId = v ∧ o = some r) ∨
      ∃ r loaded row, p = .requeueProcessing v (.setPending r loaded row) ∧ o = some r := by
  rw [Video.isOpen_iff] at hr
  cases h with
  | keep => exact .inl ⟨_, rfl, Video.isOpen_iff.mpr hr⟩
  | setProcessing _ _ hs => exact .inl ⟨_, rfl, Video.isOpen_iff.mpr hs⟩
  | materialize _ _ hs => exact .inl ⟨_, rfl, Video.isOpen_iff.mpr (.inr hs)⟩
  | setQueued _ _ hs => exact .inl ⟨_, rfl, Video.isOpen_iff.mpr hs.symm⟩
  | raw _ _ _ hu => exact .inl ⟨_, rfl, Video.isOpen_iff.mpr (by rwa [← hu.status])⟩
  | complete hp hv => exact .inr (.inl ⟨_, _, hp, hv, rfl⟩)
  | requeueProcessing hp => exact .inr (.inr ⟨_, _, _, hp, rfl⟩)
  | markFailed _ hs =>
    rcases hs with hs | hs <;> simp [DeleteFailedVideo.markCleanupFailed, hs] at hr
  | _ => simp [InitiateUpload.newVideo, CleanupAbandonedUploads.failUpload] at hr

/-- Only `materialize` changes what a row says of the output. -/
theorem VideoMove.output {v : VideoId} {r r' : Video} (h : VideoMove S w p v (some r) (some r')) :
    (r'.storageKeyMezzanine = r.storageKeyMezzanine ∧
      r'.storageOutputSha256 = r.storageOutputSha256) ∨
    ∃ e video verification artifact job,
      p = .transcode e (.materialize video verification artifact job) ∧ e.job.videoId = v ∧
      r.status = .processing ∧
        r' = (ExecuteTranscode.materializeOutputs S w video artifact).set r := by
  cases h with
  | materialize hp hv hs => exact .inr ⟨_, _, _, _, _, hp, hv, hs, rfl⟩
  | raw _ _ _ hu => exact .inl ⟨hu.storageKeyMezzanine, hu.storageOutputSha256⟩
  | _ => exact .inl ⟨rfl, rfl⟩

/-- A video comes to be processed together with a PENDING job. -/
theorem pending_of_opened {v : VideoId} {r : Video} (hh : p.Holds S pid w)
    (hs : p.step S pid a w = some (p', f)) (hr : (w.apply pid f).videos.row v = some r)
    (ho : r.isOpen) (hn : ∀ r, w.videos.row v = some r → ¬ r.isOpen) :
    ∃ x, (w.apply pid f).jobs.row (transcodeJob v) = some x ∧ x.status = .pending := by
  have herr : ∀ message, a ≠ .error message := by
    rintro message rfl
    obtain ⟨-, rfl⟩ := Proc.step_error.mp hs
    exact hn r (by simpa [World.apply] using hr) ho
  have hm := hr ▸ Proc.videoMove hh hs v
  rw [Proc.step_of_not_error herr] at hs
  rcases hm.isOpen ho with ⟨r₀, hr₀, ho₀⟩ | ⟨req, r₀, rfl, rfl, hr₀⟩ | ⟨r₀, loaded, row, rfl, hr₀⟩
  · exact absurd ho₀ (hn r₀ hr₀)
  · simp only [Proc.turn, CompleteUpload.step] at hs
    split at hs
    · cases hs
      exact absurd ho (hn r (by simpa [World.apply] using hr))
    · cases hs
      exact ⟨.new w.now, by simp [World.apply, Table.row_put], rfl⟩
  · cases hs
    exact ⟨loaded.flush (RequeueProcessing.requeued loaded) row,
      by simp [World.apply, Table.row_put],
      by simp [ProcessingJob.flush, RequeueProcessing.requeued, hh.2.2]⟩

/-! ### Runs -/

/-- Every PROCESSED video is published, and what a process may still publish is intact. -/
structure State.Published (c : State) (v : VideoId) : Prop where
  processed : ∀ r, c.world.videos.row v = some r → r.status = .processed → r.isPublished c.world
  publishes : ∀ i e pc, c.procs i = .transcode e pc → (c.procs i).publishes c.world v →
    ExecuteTranscode.intact c.world e pc

section Step

variable {c : State} {i : Pid} {v : VideoId}

theorem State.Protected.status (h : c.Protected v) :
    ∃ r, c.world.videos.row v = some r ∧ (r.status = .processed ∨ r.isOpen) := by
  rcases h with h | ⟨j, h⟩
  · obtain ⟨r, hr, hs⟩ := (Option.any_eq_true _ _).mp h
    exact ⟨r, hr, .inl (by simpa using hs)⟩
  · obtain ⟨e, pc, -, -, -, -, r, hr, ho⟩ := Proc.publishes_iff.mp h
    exact ⟨r, hr, .inr ho⟩

/-- **The condition keeps a protected output**: it carries the same digest after the turn. -/
theorem carries_of_protected (hc : c.Sound S) (hk : c.Keyed) (hok : KeepsOutput c i a)
    (hs : (c.procs i).step S i a c.world = some (p, f)) (hp : c.Protected v) (sha256 : Sha256)
    (ho : (c.world.objects (storageKeyForMezzanine v)).any (·.carries sha256)) :
    ((c.world.apply i f).objects (storageKeyForMezzanine v)).any (·.carries sha256) := by
  rcases hok with ha | hok
  · obtain ⟨message, rfl⟩ := Answer.isError_iff.mp ha
    obtain ⟨-, rfl⟩ := Proc.step_error.mp hs
    exact ho
  have hm := Proc.outputMove (hc.holds i) (hk.procs i) hk.rows hs v
  generalize heq : c.world.objects (storageKeyForMezzanine v) = o at hm ho
  generalize (c.world.apply i f).objects (storageKeyForMezzanine v) = o' at hm ⊢
  cases hm with
  | keep => exact ho
  | upload hpc hv ht happ =>
    subst hv
    rw [hpc] at hok
    obtain ⟨x, hx, hsame⟩ := (Option.any_eq_true _ _).mp (heq ▸ hok happ ht hp)
    obtain ⟨y, hy, hcar⟩ := (Option.any_eq_true _ _).mp ho
    obtain rfl : x = y := Option.some.inj (hx.symm.trans hy)
    obtain rfl := StoredObject.carries_inj hsame hcar
    simp [StoredObject.carries]
  | deleteOutput hpc hv happ =>
    subst hv
    rw [hpc] at hok
    exact absurd hp (hok happ)
  | deleteVideo hpc =>
    have hh := hc.holds i
    rw [hpc] at hh
    obtain ⟨r, hr, hst⟩ := hp.status
    obtain rfl : r = _ := Option.some.inj (hr.symm.trans hh.1.2)
    rw [Video.isOpen_iff] at hst
    rcases hh.2 with h | h <;> simp [h] at hst

theorem isPublished_of_protected (hc : c.Sound S) (hk : c.Keyed) (hok : KeepsOutput c i a)
    (hs : (c.procs i).step S i a c.world = some (p, f)) (hp : c.Protected v) {r r' : Video}
    (hr : c.world.videos.row v = some r)
    (hkey : r'.storageKeyMezzanine = r.storageKeyMezzanine)
    (hsha : r'.storageOutputSha256 = r.storageOutputSha256) (h : r.isPublished c.world) :
    r'.isPublished (c.world.apply i f) := by
  obtain ⟨hmez, s, o, hrec, ho, hcar⟩ := (Video.isPublished_iff (hk.rows v r hr)).mp h
  have := carries_of_protected hc hk hok hs hp s (by simp [ho, hcar])
  obtain ⟨o', ho', hcar'⟩ := (Option.any_eq_true _ _).mp this
  simp only [Video.isPublished, Option.any_eq_true]
  exact ⟨_, hkey.trans hmez, s, hsha.trans hrec, o', ho', hcar'⟩

/-- A process that is about to mark the video PROCESSED publishes it. -/
theorem publishes_setProcessed (hc : c.Sound S) {e : Execution} {job completed : ProcessingJob}
    {r : Video} (hp : c.procs i = .transcode e (.setProcessed job completed))
    (hr : c.world.videos.row e.job.videoId = some r) (hst : r.isOpen) :
    (c.procs i).publishes c.world e.job.videoId := by
  have hh := hc.holds i
  have hrt := hc.routed i
  rw [hp] at hh hrt
  obtain ⟨⟨-, hj⟩, _, _, hact, -⟩ := hh
  have htj := transcodeJob_videoId hrt
  exact Proc.publishes_iff.mpr ⟨e, _, hp, htj.symm, rfl, ⟨job, htj ▸ hj, hact⟩, r, hr, hst⟩

theorem State.Published.processed_step (hc : c.Sound S) (hk : c.Keyed) (hok : KeepsOutput c i a)
    (hpub : c.Published v) (hs : (c.procs i).step S i a c.world = some (p, f)) {r' : Video}
    (hr' : (c.world.apply i f).videos.row v = some r') (hst : r'.status = .processed) :
    r'.isPublished (c.world.apply i f) := by
  have hm := hr' ▸ Proc.videoMove (hc.holds i) hs v
  have same {r : Video} (hr : c.world.videos.row v = some r) (hp : r.status = .processed)
      (hkey : r'.storageKeyMezzanine = r.storageKeyMezzanine)
      (hsha : r'.storageOutputSha256 = r.storageOutputSha256) :
      r'.isPublished (c.world.apply i f) :=
    isPublished_of_protected hc hk hok hs (.inl (by simp [hr, hp])) hr hkey hsha
      (hpub.processed r hr hp)
  generalize hr : c.world.videos.row v = o at hm
  cases hm with
  | keep => exact same hr hst rfl rfl
  | @setProcessed e job completed r hp hv hs' =>
    subst hv
    have hpb := publishes_setProcessed hc hp hr (Video.isOpen_iff.mpr (.inr hs'))
    have hint := hpub.publishes i e _ hp hpb
    simp only [ExecuteTranscode.intact, hr, Option.any_some] at hint
    exact isPublished_of_protected hc hk hok hs (.inr ⟨i, hpb⟩) hr rfl rfl hint
  | raw _ _ _ hu =>
    exact same hr (hu.status ▸ hst) hu.storageKeyMezzanine hu.storageOutputSha256
  | materialize _ _ hs' => cases hs'.symm.trans hst
  | markFailed _ hs' =>
    simp only [DeleteFailedVideo.markCleanupFailed] at hst
    rcases hs' with h | h <;> simp [h] at hst
  | _ => cases hst

/-- What is intact remains so while the output is protected and its record is kept. -/
theorem intact_of_protected (hc : c.Sound S) (hk : c.Keyed) (hok : KeepsOutput c i a)
    (hs : (c.procs i).step S i a c.world = some (p, f)) {e : Execution}
    {pc : ExecuteTranscode.Pc} (hp : c.Protected e.job.videoId)
    (hrow : ∀ r, c.world.videos.row e.job.videoId = some r → r.isPublished c.world →
      ∃ r', (c.world.apply i f).videos.row e.job.videoId = some r' ∧
        r'.isPublished (c.world.apply i f))
    (h : ExecuteTranscode.intact c.world e pc) :
    ExecuteTranscode.intact (c.world.apply i f) e pc := by
  have hobj := carries_of_protected hc hk hok hs hp
  cases pc with
  | headOutput | lockJob | materialize => exact hobj _ h
  | auditOutput | heartbeat80 | completeJob | setProcessed =>
    obtain ⟨r, hr, hpb⟩ := (Option.any_eq_true _ _).mp h
    obtain ⟨r', hr', hpb'⟩ := hrow r hr hpb
    simp [ExecuteTranscode.intact, hr', hpb']
  | _ => rfl

/-- What a process records of its output is then published. -/
theorem State.Published.materialized (hc : c.Sound S) (hk : c.Keyed) (hok : KeepsOutput c i a)
    {e : Execution} (hpub : c.Published e.job.videoId)
    (hs : (c.procs i).step S i a c.world = some (p, f)) {video : Video}
    {verification : Verification} {artifact : Artifact} {job : ProcessingJob} {r : Video}
    (hpc : c.procs i = .transcode e (.materialize video verification artifact job))
    (hr : c.world.videos.row e.job.videoId = some r) (hst : r.status = .processing) :
    ((ExecuteTranscode.materializeOutputs S c.world video artifact).set r).isPublished
      (c.world.apply i f) := by
  have hkey := hk.procs i
  have hh := hc.holds i
  have hj := hc.routed i
  rw [hpc] at hkey hh hj
  have htj := transcodeJob_videoId hj
  have hpb : (c.procs i).publishes c.world e.job.videoId :=
    Proc.publishes_iff.mpr ⟨e, _, hpc, htj.symm, rfl, ⟨job, htj ▸ hh.1.2, hh.2⟩, r, hr,
      Video.isOpen_iff.mpr (.inr hst)⟩
  have hcar := carries_of_protected hc hk hok hs (.inr ⟨i, hpb⟩) _ (hpub.publishes i e _ hpc hpb)
  have hmez : artifact.mezzanineKey = storageKeyForMezzanine e.job.videoId := hkey
  simpa [Video.isPublished, ExecuteTranscode.materializeOutputs, hmez] using hcar

theorem State.Published.own_step (hc : c.Sound S) (hk : c.Keyed) (hok : KeepsOutput c i a)
    (hpub : c.Published v) {e : Execution} {pc' : ExecuteTranscode.Pc}
    (hs : (c.procs i).step S i a c.world = some (.transcode e pc', f))
    (hp : (Proc.transcode e pc').publishes (c.world.apply i f) v) :
    ExecuteTranscode.intact (c.world.apply i f) e pc' := by
  obtain ⟨_, _, hpe, hj, hu, ⟨x, hx, hact⟩, r, hr, ho⟩ := Proc.publishes_iff.mp hp
  cases hpe
  have hv : e.job.videoId = v := by rw [hj]; rfl
  subst hv
  obtain ⟨pc, hpc, hs'⟩ := transcode_of_hasUploaded hs hu
  rcases ExecuteTranscode.step_hasUploaded hs' hu with
    ⟨video, verification, sha256, size, rfl, rfl, rfl⟩ |
    ⟨video, verification, artifact, job, rfl, rfl, r₀, hr₀, hst, rfl⟩ | ⟨hu₀, hint, hrows⟩
  · simp [ExecuteTranscode.intact, World.apply, World.setObject, StoredObject.carries]
  · have hrow : (c.world.apply i (.commit { videos := [(e.job.videoId,
        (ExecuteTranscode.materializeOutputs S c.world video artifact).set r₀)] })).videos.row
        e.job.videoId =
          some ((ExecuteTranscode.materializeOutputs S c.world video artifact).set r₀) := by
      simp [World.apply, Table.row_put]
    simp only [ExecuteTranscode.intact, hrow, Option.any_some]
    exact hpub.materialized hc hk hok hs hpc hr₀ hst
  · have hjob : ∃ x, c.world.jobs.row (transcodeJob e.job.videoId) = some x ∧
        x.isActive (some e.taskId) := by
      have hm := hx ▸ Proc.jobMove (hc.holds i) hs (transcodeJob e.job.videoId)
      rcases hm.isActive hact with h | ⟨e', h | h, -⟩
      · exact h
      · cases hpc.symm.trans h
        cases hu₀
      · cases hpc.symm.trans h
    rw [hrows] at hr
    have hpb : (c.procs i).publishes c.world e.job.videoId :=
      Proc.publishes_iff.mpr ⟨e, _, hpc, hj, hu₀, hjob, r, hr, ho⟩
    refine hint _
      (intact_of_protected hc hk hok hs (.inr ⟨i, hpb⟩) ?_ (hpub.publishes i e _ hpc hpb))
    intro r₁ hr₁ hpb₁
    exact ⟨r₁, (hrows _).trans hr₁,
      isPublished_of_protected hc hk hok hs (.inr ⟨i, hpb⟩) hr₁ rfl rfl hpb₁⟩

theorem intact_congr (hk : c.Keyed) {e : Execution} {pc : ExecuteTranscode.Pc}
    (hobj : w.objects (storageKeyForMezzanine e.job.videoId) =
      c.world.objects (storageKeyForMezzanine e.job.videoId))
    (hrow : w.videos.row e.job.videoId = c.world.videos.row e.job.videoId)
    (h : ExecuteTranscode.intact c.world e pc) : ExecuteTranscode.intact w e pc := by
  cases pc with
  | headOutput | lockJob | materialize => simpa only [ExecuteTranscode.intact, hobj] using h
  | auditOutput | heartbeat80 | completeJob | setProcessed =>
    obtain ⟨r, hr, hpb⟩ := (Option.any_eq_true _ _).mp h
    simp [ExecuteTranscode.intact, hrow, hr,
      Video.isPublished_congr (hk.rows _ r hr) rfl rfl hobj hpb]
  | _ => rfl

/-- A claim touches no object and no video. -/
theorem apply_claim (hs : (c.procs i).step S i a c.world = some (p, f)) {e : Execution}
    (hpc : c.procs i = .transcode e .claimJob) :
    (c.world.apply i f).objects = c.world.objects ∧
      ∀ v, (c.world.apply i f).videos.row v = c.world.videos.row v := by
  rw [hpc] at hs
  by_cases ha : ∃ message, a = .error message
  · obtain ⟨message, rfl⟩ := ha
    obtain ⟨-, rfl⟩ := Proc.step_error.mp hs
    exact ⟨rfl, fun v => by simp [World.apply]⟩
  · rw [Proc.step_of_not_error (fun m hm => ha ⟨m, hm⟩)] at hs
    simp only [Proc.turn, ExecuteTranscode.step, updateJob_eq_some] at hs
    obtain ⟨o, -, he⟩ := hs
    cases he
    exact ⟨rfl, fun v => by simp [World.apply]⟩

theorem State.Published.other_step (hc : c.Sound S) (hk : c.Keyed) (hok : KeepsOutput c i a)
    (hpub : c.Published v) (hs : (c.procs i).step S i a c.world = some (p, f)) {j : Pid}
    {e : Execution} {pc : ExecuteTranscode.Pc} (hpj : c.procs j = .transcode e pc)
    (hp : (c.procs j).publishes (c.world.apply i f) v) :
    ExecuteTranscode.intact (c.world.apply i f) e pc := by
  obtain ⟨_, _, hpe, hj, hu, ⟨x, hx, hact⟩, r', hr', ho⟩ := Proc.publishes_iff.mp hp
  cases hpj.symm.trans hpe
  have hv : e.job.videoId = v := by rw [hj]; rfl
  subst hv
  have hvm := hr' ▸ Proc.videoMove (hc.holds i) hs e.job.videoId
  by_cases hpb : (c.procs j).publishes c.world e.job.videoId
  · -- It could publish before the turn.
    have hprot : c.Protected e.job.videoId := .inr ⟨j, hpb⟩
    refine intact_of_protected hc hk hok hs hprot ?_ (hpub.publishes j e pc hpj hpb)
    intro r hr hpub'
    rw [hr] at hvm
    refine ⟨r', hr', ?_⟩
    rcases hvm.output with ⟨hkey, hsha⟩ |
      ⟨e', video, verification, artifact, job, hpc, hv, hst, rfl⟩
    · exact isPublished_of_protected hc hk hok hs hprot hr hkey hsha hpub'
    · rw [← hv] at hpub hr
      exact hpub.materialized hc hk hok hs hpc hr hst
  · -- It can publish since this turn: the job has been claimed under its task id.
    have hopen : ∃ r, c.world.videos.row e.job.videoId = some r ∧ r.isOpen := by
      by_contra hn
      obtain ⟨y, hy, hpend⟩ := pending_of_opened (hc.holds i) hs hr' ho fun r hr h => hn ⟨r, hr, h⟩
      obtain rfl : x = y := Option.some.inj (hx.symm.trans hy)
      rw [ProcessingJob.isActive_some, hpend] at hact
      cases hact.1
    have hjm := hx ▸ Proc.jobMove (hc.holds i) hs (transcodeJob e.job.videoId)
    rcases hjm.isActive hact with hact' | ⟨e', hpe' | hpe', hje', hte'⟩
    · exact absurd (Proc.publishes_iff.mpr ⟨e, pc, hpj, hj, hu, hact', hopen⟩) hpb
    · rcases hok with ha | hok
      · obtain ⟨message, rfl⟩ := Answer.isError_iff.mp ha
        obtain ⟨-, rfl⟩ := Proc.step_error.mp hs
        exact absurd (Proc.publishes_iff.mpr
          ⟨e, pc, hpj, hj, hu, ⟨x, by simpa [World.apply] using hx, hact⟩, hopen⟩) hpb
      · obtain ⟨hobj, hrow⟩ := apply_claim hs hpe'
        rw [hpe'] at hok
        exact intact_congr hk (congrFun hobj _) (hrow _)
          (hok j e pc hpj (hj.trans hje'.symm) hte'.symm)
    · have hrt := hc.routed i
      rw [hpe'] at hrt
      exact absurd (by rw [hje']; rfl) hrt

end Step

theorem published_of_reach {c : State} (h : (system S).Reach Deployed KeepsOutput c) :
    ∀ v, c.Published v := by
  refine invariant_of_reach (Q := fun c => ∀ v, c.Published v) ?_ ?_ h
  · rintro c ⟨⟨accounts, links, hw⟩, hf⟩ v
    refine ⟨fun r hr => ?_, fun i e pc hp => ?_⟩
    · rw [hw] at hr
      cases hr
    · exact absurd (hf i) (by rw [hp]; exact id)
  · intro c i a p f hreach hpub hok hs v
    have hc := sound_of_reach hreach
    have hk := keyed_of_reach hreach
    refine ⟨fun r hr hst => (hpub v).processed_step hc hk hok hs hr hst, fun j e pc hpj hp => ?_⟩
    by_cases hj : j = i
    · subst hj
      simp only [State.after, Function.update_self] at hpj hp ⊢
      subst hpj
      exact (hpub v).own_step hc hk hok hs hp
    · simp only [State.after, Function.update_of_ne hj] at hpj hp ⊢
      exact (hpub v).other_step hc hk hok hs hpj hp

/-- **Every PROCESSED video is published in every state of every run whose turns satisfy the
condition.** -/
theorem isPublished_of_reach {c : State} (h : (system S).Reach Deployed KeepsOutput c)
    {v : VideoId} {r : Video} (hr : c.world.videos.row v = some r) (hs : r.status = .processed) :
    r.isPublished c.world :=
  (published_of_reach h v).processed r hr hs

/-! ### Two executions -/

/-- The process executes a transcode. -/
def Proc.isTranscode : Proc → Bool
  | .transcode .. => true
  | _ => false

/-- An execution that has no other beside it keeps the output of a video that is not PROCESSED. -/
theorem keepsOutput_of_alone {c : State} {i : Pid}
    (hj : ∀ j, j ≠ i → (c.procs j).isTranscode = false)
    (hv : ∀ e pc, c.procs i = .transcode e pc →
      ((c.world.videos.row e.job.videoId).any fun r => r.status = .processed) = false) :
    KeepsOutput c i a := by
  have alone {j e pc} (h : c.procs j = .transcode e pc) : j = i := by
    by_contra hne
    simpa [h, Proc.isTranscode] using hj j hne
  have unprotected {e pc} (h : c.procs i = .transcode e pc)
      (hu : ExecuteTranscode.hasUploaded pc = false) : ¬ c.Protected e.job.videoId := by
    rintro (hp | ⟨j, hp⟩)
    · rw [hv e pc h] at hp
      cases hp
    · obtain ⟨e', pc', hpc, -, hu', -⟩ := Proc.publishes_iff.mp hp
      obtain rfl := alone hpc
      cases h.symm.trans hpc
      cases hu.symm.trans hu'
  refine .inr ?_
  split
  · next e h =>
    intro j e' pc hpc _ _
    obtain rfl := alone hpc
    cases h.symm.trans hpc
    rfl
  · next e _ _ _ _ h => exact fun _ _ hp => absurd hp (unprotected h rfl)
  · next e _ h => exact fun _ => unprotected h rfl
  · trivial

/-- Of the first `n` processes, no other than `i` executes a transcode, and none of a PROCESSED
video. -/
def State.isAlone (n : ℕ) (c : State) (i : Pid) (_ : Answer) : Bool :=
  ((List.range n).all fun j => j = i || !(c.procs j).isTranscode) &&
    match c.procs i with
    | .transcode e _ => !(c.world.videos.row e.job.videoId).any fun r => r.status = .processed
    | _ => true

theorem keepsOutput_of_isAlone {n : ℕ} {c : State} {i : Pid} (hb : c.Bounded n)
    (h : c.isAlone n i a = true) : KeepsOutput c i a := by
  simp only [State.isAlone, Bool.and_eq_true, List.all_eq_true, List.mem_range] at h
  refine keepsOutput_of_alone (fun j hj => ?_) fun e pc hpc => ?_
  · by_cases hn : j < n
    · simpa [hj] using h.1 j hn
    · rw [hb j (Nat.le_of_not_lt hn)]
      rfl
  · simpa [hpc] using h.2

/-- A video that is uploaded, transcoded by a single worker and published. -/
theorem exists_isPublished :
    ∃ c, (system .default).Reach Deployed KeepsOutput c ∧
      ∃ r, c.world.videos.row 0 = some r ∧ r.status = .processed ∧ r.isPublished c.world := by
  obtain ⟨c, hc, hp⟩ := exists_reach_of_check (S := .default) (State.isAlone 6)
    (fun c i a => keepsOutput_of_isAlone)
    (deployed_oneUpload [.clock, .dispatch .select, .worker] (by simp [Proc.IsFresh]))
    (bounded_oneUpload [.clock, .dispatch .select, .worker])
    (deliveryTurns ++ turns 5 8 ++ [(5, .output 9 4)] ++ turns 5 8)
    (fun c => (c.world.videos.row 0).any fun r => r.status = .processed) (by decide +kernel)
  obtain ⟨r, hr, hs⟩ := (Option.any_eq_true _ _).mp hp
  have hs : r.status = .processed := by simpa using hs
  exact ⟨c, hc, r, hr, hs, isPublished_of_reach hc hr hs⟩

/-- A coach cancels and requeues a transcode that is about to upload. The next execution publishes
its own output, and the first one replaces and then deletes it. -/
theorem exists_not_isPublished :
    ∃ c, (system .default).Reach Deployed Machine.Always c ∧
      ∃ r, c.world.videos.row 0 = some r ∧ r.status = .processed ∧ ¬ r.isPublished c.world := by
  obtain ⟨c, hc, hb⟩ := Machine.exists_reach_of_exec (system .default) Machine.Always
    (deployed_oneUpload [.clock, .dispatch .select, .worker, .cancelProcessing 0 1 .lockVideo,
      .requeueProcessing 0 .lockVideo, .dispatch .select, .worker] (by simp [Proc.IsFresh]))
    (deliveryTurns ++ turns 5 8 ++ [(5, .output 9 4)] ++ turns 6 4 ++ turns 7 5 ++
      [(8, .jobs [transcodeJob 0])] ++ turns 8 2 ++ [(9, .deliver 0 false)] ++ turns 9 8 ++
      [(9, .output 11 4)] ++ turns 9 8 ++ turns 5 4)
    (fun c => (c.world.videos.row 0).any fun r => r.status = .processed && !r.isPublished c.world)
    (by decide +kernel)
  obtain ⟨r, hr, hs⟩ := (Option.any_eq_true _ _).mp hb
  simp only [Bool.and_eq_true, decide_eq_true_eq, Bool.not_eq_true'] at hs
  exact ⟨c, hc, r, hr, hs.1, by simp [hs.2]⟩

end NextBallUp
