import NextBallUp.Commits
import Mathlib.Logic.Relation

/-!
# Repeated requests

A request that fails is sent again. `POST /videos/{id}/complete`, `POST /videos/{id}/cancel-upload`
and `DELETE /videos/{id}` call the storage before they commit, so an attempt can leave its work half
done: the storage has changed, and the row is as before. What the next attempt makes of that decides
whether the request can be repeated until it succeeds.

The storage takes an upload id once. Completing or aborting consumes it, and a second call with it
is an error. Both requests make that call again whenever the row still has its `upload_id`, and both
treat the error as a failure of the storage.

## Main definitions

* `Attempt`, `Unhindered`: one request from its first turn to its end, with any answers, and with
  answers that are all favourable
* `Attempts`: any number of attempts, with other events in between
* `CompleteUpload.Completes`, `DeleteFailedVideo.Removes`: an attempt now does what it is for

## Main results

* `CompleteUpload.completes_iff`: an upload can be completed if and only if its upload id has not
  been consumed
* `DeleteFailedVideo.removes_iff`: the same for the deletion of a video
-/

namespace NextBallUp

variable {S : Settings} {pid : Pid} {w₀ w w' : World} {p p' : Proc}

/-! ### Attempts -/

/-- A request from its first turn to its end, whatever is answered to it. -/
def Attempt (S : Settings) (p : Proc) (w w' : World) : Prop :=
  ∃ pid, (system S).Alone pid (fun _ => True) p w .done w'

/-- An attempt in which every call and every statement succeeds. -/
def Unhindered (S : Settings) (pid : Pid) (p : Proc) (w w' : World) : Prop :=
  (system S).Alone pid (· = .ok) p w .done w'

/-- Attempts at any of these requests, and between them what `between` allows. -/
def Attempts (S : Settings) (requests : Proc → Prop) (between : World → World → Prop) :
    World → World → Prop :=
  Relation.ReflTransGen fun w w' => (∃ p, requests p ∧ Attempt S p w w') ∨ between w w'

theorem step_system_eq_some {a : Answer} :
    (system S).step pid a p w = some (p', w') ↔
      ∃ f, p.step S pid a w = some (p', f) ∧ w' = w.apply pid f := by
  simp only [system, Option.map_eq_some_iff, Prod.exists, Prod.mk.injEq]
  constructor
  · rintro ⟨q, f, hs, rfl, rfl⟩
    exact ⟨f, hs, rfl⟩
  · rintro ⟨f, hs, rfl⟩
    exact ⟨p', f, hs, rfl, rfl⟩

@[simp] theorem Proc.step_done (a : Answer) : Proc.done.step S pid a w = none := by
  cases a <;> rfl

/-- What every turn keeps, an attempt keeps. -/
theorem Attempt.invariant {Q : Pid → Proc → World → Prop}
    (hstep : ∀ pid a p w p' f, Q pid p w → p.step S pid a w = some (p', f) →
      Q pid p' (w.apply pid f)) (h : Attempt S p w w') (hq : ∀ pid, Q pid p w) :
    ∃ pid, Q pid .done w' := by
  obtain ⟨pid, h⟩ := h
  refine ⟨pid, h.invariant (Q := Q pid) (fun a p w p' w' hq hs => ?_) (hq pid)⟩
  obtain ⟨f, ht, rfl⟩ := step_system_eq_some.mp hs
  exact hstep pid a p w p' f hq ht

/-- **Repeated requests.** What every attempt and every event in between keeps, any number of them
keep. -/
theorem Attempts.invariant {requests : Proc → Prop} {between : World → World → Prop}
    {Q : World → Prop} (hattempt : ∀ p w w', requests p → Q w → Attempt S p w w' → Q w')
    (hbetween : ∀ w w', Q w → between w w' → Q w') (h : Attempts S requests between w₀ w)
    (hq : Q w₀) : Q w := by
  induction h with
  | refl => exact hq
  | tail _ h ih =>
    rcases h with ⟨p, hp, h⟩ | h
    · exact hattempt p _ _ hp ih h
    · exact hbetween _ _ ih h

namespace Unhindered

theorem turn {f : Effect} (hs : p.step S pid .ok w = some (p', f))
    (h : Unhindered S pid p' (w.apply pid f) w') : Unhindered S pid p w w' :=
  Machine.Alone.turn rfl (step_system_eq_some.mpr ⟨f, hs, rfl⟩) h

theorem last {f : Effect} (hs : p.step S pid .ok w = some (.done, f)) :
    Unhindered S pid p w (w.apply pid f) :=
  turn hs .refl

/-- There is only one way to go on. -/
theorem of_turn {f : Effect} (h : Unhindered S pid p w w')
    (hs : p.step S pid .ok w = some (p', f)) : Unhindered S pid p' (w.apply pid f) w' := by
  have hp : p ≠ .done := by
    rintro rfl
    cases hs
  obtain ⟨a, q, v, rfl, ht, h⟩ := h.exists_turn hp
  obtain ⟨g, hg, rfl⟩ := step_system_eq_some.mp ht
  cases hs.symm.trans hg
  exact h

theorem eq_of_done (h : Unhindered S pid .done w w') : w' = w := by
  cases h with
  | refl => rfl
  | turn _ hs =>
    obtain ⟨f, ht, -⟩ := step_system_eq_some.mp hs
    simp at ht

theorem unique {w'' : World} (h : Unhindered S pid p w w') (h' : Unhindered S pid p w w'') :
    w'' = w' := by
  unfold Unhindered at h
  generalize hd : Proc.done = d at h
  induction h with
  | refl =>
    subst hd
    exact h'.eq_of_done
  | turn ha hs _ ih =>
    subst ha
    obtain ⟨f, ht, rfl⟩ := step_system_eq_some.mp hs
    exact ih (h'.of_turn ht) hd

theorem attempt (h : Unhindered S pid p w w') : Attempt S p w w' := ⟨pid, h.mono fun _ _ => trivial⟩

end Unhindered

/-- What changes between two requests for the video `v`: nothing that is stored about it in the
database. -/
structure Elsewhere (v : VideoId) (w w' : World) : Prop where
  row : w'.videos.row v = w.videos.row v
  lock : w'.videos.lock v = w.videos.lock v
  jobs : ∀ s, w'.jobs.row ⟨v, s⟩ = w.jobs.row ⟨v, s⟩
  jobLocks : ∀ s, w'.jobs.lock ⟨v, s⟩ = w.jobs.lock ⟨v, s⟩

theorem Answer.applied_of_returns {a : Answer} (h : a.returns = true) : a.applied = true := by
  cases a <;> first | rfl | cases h

/-- An upload of two gigabytes, as it is initiated. -/
def largeUpload : Video := InitiateUpload.newVideo .default ⟨0, 2000000000, none, []⟩
  (.start (fun _ => some .unlimited) some) 0 (some 1)

/-- Such an upload is open, and no other request has begun. -/
theorem exists_largeUpload :
    ∃ c : State, (system .default).Reach Deployed Machine.Always c ∧
      c.world.videos.row 0 = some largeUpload ∧ c.world.videos.lock 0 = none ∧
      c.world.multipart 1 = some (storageKeyForVideo 0) ∧
      c.world.jobs.row (transcodeJob 0) = none ∧ ∀ s, c.world.jobs.lock ⟨0, s⟩ = none := by
  obtain ⟨c, hc, hb⟩ := Machine.exists_reach_of_exec (system .default) Machine.Always
    (deployed_deployment (by simp [Proc.IsFresh]) : Deployed (deployment
      (fun _ => some .unlimited) some [.initiate ⟨0, 2000000000, none, []⟩ .lockAccount]))
    (turns 0 6) (fun c : State => decide (c.world.videos.row 0 = some largeUpload ∧
      c.world.videos.lock 0 = none ∧ c.world.multipart 1 = some (storageKeyForVideo 0) ∧
      c.world.jobs.row (transcodeJob 0) = none ∧
      ∀ s ∈ ProcessingJobStage.all, c.world.jobs.lock ⟨0, s⟩ = none)) (by decide +kernel)
  rw [decide_eq_true_eq] at hb
  obtain ⟨hrow, hlock, hopen, hjob, hjobs⟩ := hb
  exact ⟨c, hc, hrow, hlock, hopen, hjob, fun s => hjobs s s.mem_all⟩

/-! ### Completing an upload -/

namespace CompleteUpload

variable {req : CompleteUpload} {r : Video} {key : StorageKey}

/-- The upload has been initiated, and nothing has come of it yet. -/
structure Waits (req : CompleteUpload) (r : Video) (w : World) : Prop where
  row : w.videos.row req.videoId = some r
  job : w.jobs.row (transcodeJob req.videoId) = none

/-- An earlier attempt has succeeded. -/
structure Succeeded (req : CompleteUpload) (w : World) : Prop where
  row : ∃ q, w.videos.row req.videoId = some q ∧ q.status = .queued ∧ q.uploadId = none
  job : ∃ job, w.jobs.row (transcodeJob req.videoId) = some job

/-- A pending upload of an object under this key, which no request has locked. -/
structure Initiated (req : CompleteUpload) (r : Video) (key : StorageKey) (w : World) : Prop
    extends Waits req r w where
  status : r.status = .pendingUpload
  storageKeyRaw : r.storageKeyRaw = some key
  lock : w.videos.lock req.videoId = none

/-- The request does not contradict the checksum declared when the upload was initiated, and if the
upload is in parts it names parts that assemble to the declared object. -/
structure Valid (req : CompleteUpload) (r : Video) : Prop where
  checksum : ¬ (req.checksumSha256 ≠ none ∧ r.checksumSha256 ≠ none ∧
    req.checksumSha256 ≠ r.checksumSha256)
  parts : r.uploadId ≠ none → ∃ o, req.parts = some o ∧ isDeclared req r o = true

/-- The storage holds the declared object, or can assemble it. -/
def IsAvailable (req : CompleteUpload) (r : Video) (key : StorageKey) (w : World) : Prop :=
  (∃ o, w.objects key = some o ∧ isDeclared req r o = true) ∨
    ∃ id, r.uploadId = some id ∧ w.multipart id = some key

/-- The video is QUEUED and has exactly one transcode job. -/
structure IsQueued (req : CompleteUpload) (w : World) : Prop where
  status : ∃ q, w.videos.row req.videoId = some q ∧ q.status = .queued
  job : ∃! j : JobId, j.videoId = req.videoId ∧ j.stage = .transcode ∧ w.jobs.row j ≠ none

/-- An attempt now ends with the video QUEUED. -/
def Completes (S : Settings) (pid : Pid) (req : CompleteUpload) (w : World) : Prop :=
  ∃ w', Unhindered S pid (.complete req .lockVideo) w w' ∧ IsQueued req w'

/-- Any number of attempts at the same request. -/
abbrev Retries (S : Settings) (req : CompleteUpload) : World → World → Prop :=
  Attempts S (· = .complete req .lockVideo) (Elsewhere req.videoId)

theorem Succeeded.isQueued (h : Succeeded req w) : IsQueued req w := by
  obtain ⟨q, hq, hs, -⟩ := h.row
  obtain ⟨job, hj⟩ := h.job
  refine ⟨⟨q, hq, hs⟩, transcodeJob req.videoId, ⟨rfl, rfl, by simp [hj]⟩, ?_⟩
  rintro j ⟨hv, ht, -⟩
  rw [← hv, transcodeJob_videoId ht]

/-- What an attempt at completing the upload of `r` relies on and keeps. -/
def Keeps (req : CompleteUpload) (r : Video) (pid : Pid) (p : Proc) (w : World) : Prop :=
  match p with
  | .complete req' pc => req' = req ∧
    match pc with
    | .lockVideo => (Waits req r w ∨ Succeeded req w) ∧ w.videos.lock req.videoId = none
    | .completeMultipart video _ _ | .verifyObject video | .deleteRawObject video
    | .queueTranscode video =>
      video = r ∧ Waits req r w ∧ w.videos.lock req.videoId = some pid
    | .auditFailure => Waits req r w ∧ w.videos.lock req.videoId = some pid
  | .done => (Waits req r w ∨ Succeeded req w) ∧ w.videos.lock req.videoId = none
  | _ => False

theorem Waits.congr (h : Waits req r w) (hv : w'.videos.row req.videoId = w.videos.row req.videoId)
    (hj : w'.jobs.row (transcodeJob req.videoId) = w.jobs.row (transcodeJob req.videoId)) :
    Waits req r w' := ⟨hv.trans h.row, hj.trans h.job⟩

theorem Succeeded.congr (h : Succeeded req w)
    (hv : w'.videos.row req.videoId = w.videos.row req.videoId)
    (hj : w'.jobs.row (transcodeJob req.videoId) = w.jobs.row (transcodeJob req.videoId)) :
    Succeeded req w' := ⟨hv ▸ h.row, hj ▸ h.job⟩

/-- A transaction that writes nothing about the video ends. -/
theorem keeps_done_commit {log : List (AuditAction × Resource)}
    (h : Waits req r w ∨ Succeeded req w)
    (hl : w.videos.lock req.videoId = none ∨ w.videos.lock req.videoId = some pid) :
    Keeps req r pid .done (w.apply pid (.commit { auditLogs := log })) := by
  have hv : (w.commit pid { auditLogs := log }).videos.row req.videoId =
      w.videos.row req.videoId := by simp
  have hj : (w.commit pid { auditLogs := log }).jobs.row (transcodeJob req.videoId) =
      w.jobs.row (transcodeJob req.videoId) := by simp
  refine ⟨h.imp (fun h => h.congr hv hj) fun h => h.congr hv hj, ?_⟩
  rcases hl with hl | hl <;> simp [World.apply, World.commit, Table.release, hl]

/-- The request has queued the video. -/
theorem succeeded_commit {log : List (AuditAction × Resource)} :
    Succeeded req (w.commit pid {
      videos := [(req.videoId, queued S req w r)]
      jobs := [(transcodeJob req.videoId, .new w.now)]
      auditLogs := log }) := by
  constructor
  · exact ⟨queued S req w r, by simp [Table.row_put], rfl, rfl⟩
  · exact ⟨.new w.now, by simp [Table.row_put]⟩

/-- **One turn** of an attempt. -/
theorem Keeps.step {a : Answer} {f : Effect} (hk : Keeps req r pid p w)
    (h : p.step S pid a w = some (p', f)) : Keeps req r pid p' (w.apply pid f) := by
  cases p with
  | done => simp at h
  | complete req' pc =>
    obtain ⟨rfl, hk⟩ := hk
    by_cases ha : ∃ message, a = .error message
    · obtain ⟨message, rfl⟩ := ha
      obtain ⟨hq, rfl⟩ := Proc.step_error.mp h
      cases hq
      cases pc with
      | lockVideo => exact keeps_done_commit hk.1 (.inl hk.2)
      | completeMultipart | verifyObject | deleteRawObject | queueTranscode =>
        exact keeps_done_commit (.inl hk.2.1) (.inr hk.2.2)
      | auditFailure => exact keeps_done_commit (.inl hk.1) (.inr hk.2)
    rw [Proc.step_of_not_error fun message he => ha ⟨message, he⟩] at h
    cases pc with
    | lockVideo =>
      simp only [Proc.turn, CompleteUpload.step, Table.locate_eq_some] at h
      obtain ⟨o, ho, he⟩ := h
      cases ho with
      | miss =>
        cases he
        exact hk
      | @hit q hrow =>
        have locked (hw : Waits req' r w) :
            Waits req' r (w.apply pid (.lock [] [req'.videoId] [])) ∧
              (w.apply pid (.lock [] [req'.videoId] [])).videos.lock req'.videoId = some pid :=
          ⟨hw.congr rfl rfl, by simp [World.apply, Table.acquireAll]⟩
        dsimp only at he
        split at he
        · next hs =>
          have hw : Waits req' r w := by
            rcases hk.1 with hw | hq
            · exact hw
            · obtain ⟨q', hq', hst, -⟩ := hq.row
              cases hq'.symm.trans hrow
              simp [hst] at hs
          cases hw.row.symm.trans hrow
          split at he <;> cases he
          · exact ⟨rfl, rfl, locked hw⟩
          · exact hk
          · exact ⟨rfl, rfl, locked hw⟩
        · cases he
          exact hk
    | completeMultipart video id o =>
      obtain ⟨rfl, hw, hl⟩ := hk
      simp only [Proc.turn, CompleteUpload.step] at h
      split at h
      · cases h
        exact ⟨rfl, hw, hl⟩
      · next key _ =>
        cases h
        have hf : ∀ f : Effect, f = .skip ∨ f = .completeMultipart id key o →
            Waits req' video (w.apply pid f) ∧
              (w.apply pid f).videos.lock req'.videoId = some pid := by
          rintro f (rfl | rfl) <;> exact ⟨hw.congr rfl rfl, hl⟩
        have hw' := hf _ (ite_eq_or_eq (a.applied ∧ w.multipart id = some key) _ _).symm
        split
        · exact ⟨rfl, rfl, hw'⟩
        · exact ⟨rfl, hw'⟩
    | verifyObject video =>
      obtain ⟨rfl, hw, hl⟩ := hk
      simp only [Proc.turn, CompleteUpload.step] at h
      split at h
      · cases h
        exact ⟨rfl, hw, hl⟩
      · split at h
        · cases h
          split
          · exact ⟨rfl, rfl, hw, hl⟩
          · exact ⟨rfl, rfl, hw, hl⟩
        · cases h
          exact ⟨rfl, hw, hl⟩
    | deleteRawObject video =>
      obtain ⟨rfl, hw, hl⟩ := hk
      cases h
      cases video.storageKeyRaw with
      | none => exact ⟨rfl, hw, hl⟩
      | some key =>
        by_cases hd : a.applied = true <;> simp only [hd, if_true, Bool.false_eq_true, if_false] <;>
          exact ⟨rfl, hw.congr rfl rfl, hl⟩
    | queueTranscode video =>
      obtain ⟨rfl, hw, hl⟩ := hk
      simp only [Proc.turn, CompleteUpload.step, hw.job] at h
      cases h
      refine ⟨.inr succeeded_commit, ?_⟩
      simp [World.apply, World.commit, Table.release, hl]
    | auditFailure =>
      cases h
      exact keeps_done_commit (.inl hk.1) (.inr hk.2)
  | _ => exact hk.elim

/-- **Every run of attempts** leaves the row as it was initiated, or QUEUED with its job. -/
theorem Retries.waits_or_succeeded (h : Retries S req w₀ w) (hw₀ : Initiated req r key w₀) :
    (Waits req r w ∨ Succeeded req w) ∧ w.videos.lock req.videoId = none := by
  refine h.invariant (Q := fun w => (Waits req r w ∨ Succeeded req w) ∧
    w.videos.lock req.videoId = none) ?_ ?_ ⟨.inl hw₀.toWaits, hw₀.lock⟩
  · rintro p w w' rfl hq ha
    obtain ⟨pid, hk⟩ := ha.invariant (Q := Keeps req r) (fun _ _ _ _ _ _ => Keeps.step)
      fun _ => ⟨rfl, hq⟩
    exact hk
  · intro w w' hq he
    exact ⟨hq.1.imp (fun h => h.congr he.row (he.jobs _)) fun h => h.congr he.row (he.jobs _),
      he.lock.trans hq.2⟩

/-! What an attempt makes of the states in which it can begin -/

/-- A duplicate of a request that has succeeded. -/
theorem Succeeded.completes (h : Succeeded req w) (hl : w.videos.lock req.videoId = none) :
    Completes S pid req w := by
  obtain ⟨q, hq, hst, -⟩ := h.row
  refine ⟨_, .last (f := .skip) ?_, h.isQueued⟩
  simp [Proc.step, Proc.turn, CompleteUpload.step, Table.locate, Table.Free, hq, hst, hl]

/-- The declared object is found, and the transcode job is queued. -/
theorem Waits.queues {o : StoredObject} (hw : Waits req r w) (hkey : r.storageKeyRaw = some key)
    (ho : w.objects key = some o) (hd : isDeclared req r o = true) :
    ∃ w', Unhindered S pid (.complete req (.verifyObject r)) w w' ∧ IsQueued req w' := by
  have hq : (Proc.complete req (.queueTranscode r)).step S pid .ok w = some (.done, .commit {
      videos := [(req.videoId, queued S req w r)]
      jobs := [(transcodeJob req.videoId, .new w.now)]
      auditLogs := [(.videoUploadCompleted, .video req.videoId),
        (.videoProcessingQueued, .job (transcodeJob req.videoId))] }) := by
    simp [Proc.step, Proc.turn, CompleteUpload.step, hw.job]
  refine ⟨_, .turn (f := .skip) ?_ (.last hq), succeeded_commit.isQueued⟩
  simp [Proc.step, Proc.turn, CompleteUpload.step, hkey, ho, hd, Answer.returns]

section Begin

variable (hS : S.storageConfigured = true) (hv : Valid req r) (hs : r.status = .pendingUpload)
  (hkey : r.storageKeyRaw = some key) (hw : Waits req r w)
  (hl : w.videos.lock req.videoId = none)

include hS hv hs hw hl

theorem Waits.lockVideo_of_single (hid : r.uploadId = none) :
    (Proc.complete req .lockVideo).step S pid .ok w =
      some (.complete req (.verifyObject r), .lock [] [req.videoId] []) := by
  simp only [Proc.step, Proc.turn, CompleteUpload.step, Table.locate, Table.Free, hw.row, hl,
    true_or, if_true, hs, hS, hv.checksum, not_false_eq_true, and_self, hid]

theorem Waits.lockVideo_of_multipart {id : UploadId} {o : StoredObject}
    (hid : r.uploadId = some id) (ho : req.parts = some o) :
    (Proc.complete req .lockVideo).step S pid .ok w =
      some (.complete req (.completeMultipart r id o), .lock [] [req.videoId] []) := by
  simp only [Proc.step, Proc.turn, CompleteUpload.step, Table.locate, Table.Free, hw.row, hl,
    true_or, if_true, hs, hS, hv.checksum, not_false_eq_true, and_self, hid, ho]

include hkey

/-- The object is in the storage already, and there is no upload to complete. -/
theorem Waits.completes_of_single (hid : r.uploadId = none) (ha : IsAvailable req r key w) :
    Completes S pid req w := by
  obtain ⟨o, ho, hd⟩ : ∃ o, w.objects key = some o ∧ isDeclared req r o = true := by
    refine ha.resolve_right ?_
    rintro ⟨id, hid', -⟩
    cases hid.symm.trans hid'
  have hw' : Waits req r (w.apply pid (.lock [] [req.videoId] [])) := hw.congr rfl rfl
  obtain ⟨w', hr, hq⟩ : ∃ w', Unhindered S pid _ _ w' ∧ IsQueued req w' :=
    hw'.queues hkey ho hd
  exact ⟨w', .turn (hw.lockVideo_of_single hS hv hs hl hid) hr, hq⟩

/-- The upload is open, and its parts are assembled. -/
theorem Waits.completes_of_open {id : UploadId} (hid : r.uploadId = some id)
    (hopen : w.multipart id = some key) : Completes S pid req w := by
  obtain ⟨o, ho, hd⟩ := hv.parts (by simp [hid])
  let w₁ := w.apply pid (.lock [] [req.videoId] [])
  have hm : (Proc.complete req (.completeMultipart r id o)).step S pid .ok w₁ =
      some (.complete req (.verifyObject r), .completeMultipart id key o) := by
    have hopen' : w₁.multipart id = some key := hopen
    simp [Proc.step, Proc.turn, CompleteUpload.step, hkey, hopen', Answer.returns, Answer.applied]
  have hw' : Waits req r (w₁.apply pid (.completeMultipart id key o)) := hw.congr rfl rfl
  have ho' : (w₁.apply pid (.completeMultipart id key o)).objects key = some o := by
    simp [World.apply, World.setObject]
  obtain ⟨w', hr, hq⟩ : ∃ w', Unhindered S pid _ _ w' ∧ IsQueued req w' :=
    hw'.queues hkey ho' hd
  exact ⟨w', .turn (hw.lockVideo_of_multipart hS hv hs hl hid ho) (.turn hm hr), hq⟩

/-- The upload id has been consumed: the storage reports an error, and the request fails whatever
the storage holds. -/
theorem Waits.not_completes_of_consumed {id : UploadId} (hid : r.uploadId = some id)
    (hopen : w.multipart id ≠ some key) : ¬ Completes S pid req w := by
  rintro ⟨w', hu, hq⟩
  obtain ⟨o, ho, -⟩ := hv.parts (by simp [hid])
  have h₁ := hu.of_turn (hw.lockVideo_of_multipart hS hv hs hl hid ho)
  have hfail : (Proc.complete req (.completeMultipart r id o)).step S pid .ok
      (w.apply pid (.lock [] [req.videoId] [])) = some (.complete req .auditFailure, .skip) := by
    have hopen' : (w.apply pid (.lock [] [req.videoId] [])).multipart id ≠ some key := hopen
    simp [Proc.step, Proc.turn, CompleteUpload.step, hkey, hopen']
  have h₃ : Unhindered S pid .done _ w' := (h₁.of_turn hfail).of_turn rfl
  obtain rfl := h₃.eq_of_done
  obtain ⟨q, hq, hst⟩ := hq.status
  have hrow : r = q := by
    simpa [World.apply, hw.row] using hq
  cases hs.symm.trans (hrow ▸ hst)

end Begin

/-- **Completing an upload.** After any attempts at completing an initiated upload, an attempt
during which the storage is reachable and has the declared object queues the video if and only if
the row has no upload id, or its upload is still open. -/
theorem completes_iff (hS : S.storageConfigured = true) (hw₀ : Initiated req r key w₀)
    (hv : Valid req r) (h : Retries S req w₀ w) (ha : IsAvailable req r key w) :
    Completes S pid req w ↔ ∀ q id, w.videos.row req.videoId = some q → q.uploadId = some id →
      w.multipart id = some key := by
  obtain ⟨hw | hw, hl⟩ := h.waits_or_succeeded hw₀
  · constructor
    · intro hc q id hq hid
      cases hw.row.symm.trans hq
      by_contra hopen
      exact hw.not_completes_of_consumed hS hv hw₀.status hw₀.storageKeyRaw hl hid hopen hc
    · intro hopen
      cases hid : r.uploadId with
      | none => exact hw.completes_of_single hS hv hw₀.status hw₀.storageKeyRaw hl hid ha
      | some id =>
        exact hw.completes_of_open hS hv hw₀.status hw₀.storageKeyRaw hl hid
          (hopen r id hw.row hid)
  · obtain ⟨q, hq, -, hid⟩ := hw.row
    refine ⟨fun _ q' id hq' hid' => ?_, fun _ => hw.completes hl⟩
    cases hq.symm.trans hq'
    cases hid.symm.trans hid'

/-- An attempt in which the storage does not answer, whether it has assembled the parts or not. -/
theorem exists_attempt_failing {id : UploadId} (consumed : Bool) (hS : S.storageConfigured = true)
    (hv : Valid req r) (hw : Initiated req r key w) (hid : r.uploadId = some id)
    (hopen : w.multipart id = some key) :
    ∃ w', Attempt S (.complete req .lockVideo) w w' ∧ Waits req r w' ∧ IsAvailable req r key w' ∧
      w'.multipart id = if consumed then none else some key := by
  obtain ⟨o, ho, hd⟩ := hv.parts (by simp [hid])
  let w₁ := w.apply 0 (.lock [] [req.videoId] [])
  let f : Effect := if consumed then .completeMultipart id key o else .skip
  let w₂ := w₁.apply 0 f
  have h₁ : (Proc.complete req .lockVideo).step S 0 .ok w = _ :=
    hw.lockVideo_of_multipart hS hv hw.status hw.lock hid ho
  have h₂ : (Proc.complete req (.completeMultipart r id o)).step S 0
      (if consumed then .faultApplied else .fault) w₁ = some (.complete req .auditFailure, f) := by
    have hopen' : w₁.multipart id = some key := hopen
    cases consumed <;>
      simp [Proc.step, Proc.turn, CompleteUpload.step, hw.storageKeyRaw, hopen', Answer.returns,
        Answer.applied, f]
  have hrows : w₂.videos = w₁.videos ∧ w₂.jobs = w₁.jobs := by
    cases consumed <;> exact ⟨rfl, rfl⟩
  refine ⟨w₂.commit 0 { auditLogs := [(.videoUploadFailed, .video req.videoId)] },
    ⟨0, .turn trivial (step_system_eq_some.mpr ⟨_, h₁, rfl⟩) (.turn trivial
      (step_system_eq_some.mpr ⟨_, h₂, rfl⟩) (.turn (a := .ok) trivial rfl .refl))⟩, ?_, ?_, ?_⟩
  · exact hw.toWaits.congr (by simp [hrows.1, w₁, World.apply])
      (by simp [hrows.2, w₁, World.apply])
  · cases consumed with
    | true => exact .inl ⟨o, by simp [w₂, f, World.apply, World.setObject, World.commit], hd⟩
    | false => exact .inr ⟨id, hid, hopen⟩
  · cases consumed with
    | true => simp [w₂, f, World.apply, World.setObject, World.setMultipart, World.commit]
    | false => exact hopen

/-- The request to complete the upload of two gigabytes. -/
def completeLarge : CompleteUpload := ⟨0, none, some ⟨2000000000, 7, none, none⟩⟩

theorem valid_completeLarge : Valid completeLarge largeUpload :=
  ⟨by decide, fun _ => ⟨_, rfl, by decide⟩⟩

/-- The upload is initiated, and its parts can be assembled. -/
theorem exists_initiated :
    ∃ c : State, (system .default).Reach Deployed Machine.Always c ∧
      Initiated completeLarge largeUpload (storageKeyForVideo 0) c.world ∧
      c.world.multipart 1 = some (storageKeyForVideo 0) := by
  obtain ⟨c, hc, hrow, hlock, hopen, hjob, -⟩ := exists_largeUpload
  exact ⟨c, hc, ⟨⟨hrow, hjob⟩, rfl, rfl, hlock⟩, hopen⟩

/-- The storage does not answer to the first attempt, which has done nothing. The second attempt
queues the video. -/
theorem exists_completes :
    ∃ c : State, (system .default).Reach Deployed Machine.Always c ∧
      ∃ w, Attempt .default (.complete completeLarge .lockVideo) c.world w ∧
        Waits completeLarge largeUpload w ∧ Completes .default 1 completeLarge w := by
  obtain ⟨c, hc, hw, hopen⟩ := exists_initiated
  obtain ⟨w, ha, hrow, havail, hopen'⟩ := exists_attempt_failing (S := .default) false rfl
    valid_completeLarge hw rfl hopen
  refine ⟨c, hc, w, ha, hrow, (completes_iff (r := largeUpload) rfl hw valid_completeLarge
    (.single (.inl ⟨_, rfl, ha⟩)) havail).mpr ?_⟩
  intro q id hq hid
  cases hrow.row.symm.trans hq
  cases hid
  exact hopen'

/-- The answer of the storage to the first attempt is lost, and no later attempt can succeed. -/
theorem exists_not_completes :
    ∃ c : State, (system .default).Reach Deployed Machine.Always c ∧
      Initiated completeLarge largeUpload (storageKeyForVideo 0) c.world ∧
      Valid completeLarge largeUpload ∧
      ∃ w, Retries .default completeLarge c.world w ∧
        IsAvailable completeLarge largeUpload (storageKeyForVideo 0) w ∧
        ¬ Completes .default 1 completeLarge w := by
  obtain ⟨c, hc, hw, hopen⟩ := exists_initiated
  obtain ⟨w, ha, hrow, havail, hnone⟩ := exists_attempt_failing (S := .default) true rfl
    valid_completeLarge hw rfl hopen
  have hr : Retries .default completeLarge c.world w := .single (.inl ⟨_, rfl, ha⟩)
  obtain ⟨-, hl⟩ := hr.waits_or_succeeded hw
  exact ⟨c, hc, hw, valid_completeLarge, w, hr, havail, hrow.not_completes_of_consumed rfl
    valid_completeLarge rfl rfl hl rfl (by simp [hnone])⟩

end CompleteUpload

/-! ### Removing a video -/

namespace DeleteFailedVideo

variable {v : VideoId} {r : Video} {keys : List StorageKey}

/-- The video is FAILED or PENDING_UPLOAD, and these are the keys of its objects. -/
def Removable (keys : List StorageKey) (r : Video) : Prop :=
  (r.status = .failed ∨ r.status = .pendingUpload) ∧ storageKeys r = keys

/-- Neither the row of the video is left nor an object of it. -/
structure IsRemoved (v : VideoId) (keys : List StorageKey) (w : World) : Prop where
  row : w.videos.row v = none
  objects : ∀ k ∈ keys, w.objects k = none

/-- The video can be removed or has been. -/
def IsSettled (v : VideoId) (keys : List StorageKey) (w : World) : Prop :=
  (∃ r, w.videos.row v = some r ∧ Removable keys r) ∨ IsRemoved v keys w

/-- No transaction about the video is open. -/
structure Unlocked (v : VideoId) (w : World) : Prop where
  video : w.videos.lock v = none
  jobs : ∀ s, w.jobs.lock ⟨v, s⟩ = none

/-- Another event. Nothing is uploaded to a video that is not there any more. -/
structure Between (v : VideoId) (keys : List StorageKey) (w w' : World) : Prop
    extends Elsewhere v w w' where
  objects : w.videos.row v = none → ∀ k ∈ keys, w.objects k = none → w'.objects k = none

/-- Any number of attempts to cancel the upload or to delete the video. -/
abbrev Retries (S : Settings) (v : VideoId) (keys : List StorageKey) : World → World → Prop :=
  Attempts S (fun p => p = .cancelUpload v .lockVideo ∨ p = .deleteFailed v .lockVideo)
    (Between v keys)

/-- An attempt to delete the video now leaves nothing of it. -/
def Removes (S : Settings) (pid : Pid) (v : VideoId) (keys : List StorageKey) (w : World) : Prop :=
  ∃ w', Unhindered S pid (.deleteFailed v .lockVideo) w w' ∧ IsRemoved v keys w'

/-- The objects that are not among those still to be removed are gone. -/
def Remaining (keys : List StorageKey) (todo : List StorageHandle) (w : World) : Prop :=
  ∀ k ∈ keys, .object k ∈ todo ∨ w.objects k = none

/-- What an attempt that has locked the row `r` of the video relies on and keeps. -/
structure Working (v : VideoId) (keys : List StorageKey) (r : Video) (pid : Pid) (w : World) :
    Prop where
  row : w.videos.row v = some r
  removable : Removable keys r
  lock : w.videos.lock v = some pid
  jobs : ∀ s, w.jobs.lock ⟨v, s⟩ = none

/-- What an attempt relies on and keeps. -/
def Keeps (v : VideoId) (keys : List StorageKey) (pid : Pid) (p : Proc) (w : World) : Prop :=
  match p with
  | .cancelUpload v' pc => v' = v ∧
    match pc with
    | .lockVideo => IsSettled v keys w ∧ Unlocked v w
    | .cleanStorage video | .sumReserved video | .release video _ _ =>
      Working v keys video pid w
    | .rollback => ∃ r, Working v keys r pid w
  | .deleteFailed v' pc => v' = v ∧
    match pc with
    | .lockVideo => IsSettled v keys w ∧ Unlocked v w
    | .cleanStorage video handle rest failures =>
      Working v keys video pid w ∧ (failures = [] → Remaining keys (handle :: rest) w)
    | .markFailed video => Working v keys video pid w
    | .sumReserved video | .release video _ _ =>
      Working v keys video pid w ∧ Remaining keys [] w
  | .done => IsSettled v keys w ∧ Unlocked v w
  | _ => False

theorem IsSettled.congr (h : IsSettled v keys w) (hv : w'.videos.row v = w.videos.row v)
    (ho : w.videos.row v = none → ∀ k ∈ keys, w.objects k = none → w'.objects k = none) :
    IsSettled v keys w' := by
  rcases h with ⟨r, hr, hk⟩ | hr
  · exact .inl ⟨r, hv.trans hr, hk⟩
  · exact .inr ⟨hv.trans hr.row, fun k hk => ho hr.row k hk (hr.objects k hk)⟩

theorem Working.isSettled (h : Working v keys r pid w) : IsSettled v keys w :=
  .inl ⟨r, h.row, h.removable⟩

theorem Working.congr (h : Working v keys r pid w) (hv : w'.videos = w.videos)
    (hj : w'.jobs = w.jobs) : Working v keys r pid w' :=
  ⟨hv ▸ h.row, h.removable, hv ▸ h.lock, hj ▸ h.jobs⟩

/-- The end of a transaction, in which the row is written or deleted or nothing happens to it. -/
theorem keeps_done {tx : Tx} (hl : w.videos.lock v = none ∨ w.videos.lock v = some pid)
    (hj : ∀ s, w.jobs.lock ⟨v, s⟩ = none) (hs : IsSettled v keys (w.commit pid tx)) :
    Keeps v keys pid .done (w.apply pid (.commit tx)) := by
  refine ⟨hs, ?_, fun s => ?_⟩
  · rcases hl with hl | hl <;>
      simp [World.apply, World.commit, Table.release, Table.lock_putAll, hl]
  · simp [World.apply, World.commit, Table.release, Table.lock_putAll, hj s]

theorem IsSettled.commit {events : List UsageEvent} {log : List (AuditAction × Resource)}
    (h : IsSettled v keys w) :
    IsSettled v keys (w.commit pid { usageEvents := events, auditLogs := log }) :=
  h.congr (by simp) fun _ _ _ ho => ho

theorem isSettled_commit_put {events : List UsageEvent} {log : List (AuditAction × Resource)}
    (hk : Removable keys r) :
    IsSettled v keys
      (w.commit pid { videos := [(v, r)], usageEvents := events, auditLogs := log }) :=
  .inl ⟨r, by simp [Table.row_put], hk⟩

theorem isRemoved_commit {events : List UsageEvent} {log : List (AuditAction × Resource)}
    (ho : Remaining keys [] w) :
    IsRemoved v keys (w.commit pid { deleted := [v], usageEvents := events, auditLogs := log }) :=
  ⟨by simp, fun k hk => (ho k hk).resolve_left List.not_mem_nil⟩

/-- A handle that has been removed does not remain. -/
theorem Remaining.remove {handle : StorageHandle} {rest : List StorageHandle}
    (h : Remaining keys (handle :: rest) w) :
    Remaining keys rest (w.apply pid (remove handle)) := by
  intro k hk
  cases handle with
  | multipart => exact (h k hk).imp_left fun hm => by simpa using hm
  | object key =>
    by_cases he : k = key
    · exact .inr (by simp [DeleteFailedVideo.remove, World.apply, World.setObject, he])
    · refine (h k hk).imp (fun hm => by simpa [he] using hm) fun ho => ?_
      simp [DeleteFailedVideo.remove, World.apply, World.setObject, ho]

theorem remaining_storageHandles (r : Video) (w : World) :
    Remaining (storageKeys r) (storageHandles r) w := fun k hk => by
  left
  refine List.mem_append_right _ (List.mem_map_of_mem ?_)
  rwa [List.mem_eraseDups]

theorem keeps_next {failures todo : List StorageHandle} (hw : Working v keys r pid w)
    (hf : failures = [] → Remaining keys todo w) :
    Keeps v keys pid (.deleteFailed v (next r failures todo)) w := by
  cases todo with
  | nil =>
    by_cases he : failures = []
    · simp only [next, he, if_true]
      exact ⟨rfl, hw, hf he⟩
    · simp only [next, he, if_false]
      exact ⟨rfl, hw⟩
  | cons handle rest => exact ⟨rfl, hw, hf⟩

theorem IsSettled.removable (h : IsSettled v keys w) (hr : w.videos.row v = some r) :
    Removable keys r := by
  rcases h with ⟨q, hq, hk⟩ | hq
  · cases hq.symm.trans hr
    exact hk
  · cases hq.row.symm.trans hr

theorem working_lock (pid : Pid) (h : IsSettled v keys w) (hu : Unlocked v w)
    (hr : w.videos.row v = some r) :
    Working v keys r pid (w.apply pid (.lock [] [v] [])) where
  row := hr
  removable := h.removable hr
  lock := by simp [World.apply, Table.acquireAll]
  jobs := by simpa [World.apply] using hu.jobs

/-- One turn of a cancellation. -/
theorem keeps_cancelUpload {a : Answer} {f : Effect} {pc : CancelUpload.Pc}
    (hk : Keeps v keys pid (.cancelUpload v pc) w)
    (h : CancelUpload.step S pid v w a pc = some (p', f)) :
    Keeps v keys pid p' (w.apply pid f) := by
  obtain ⟨-, hk⟩ := hk
  cases pc with
  | lockVideo =>
    simp only [CancelUpload.step, Table.locate_eq_some] at h
    obtain ⟨o, ho, he⟩ := h
    cases ho with
    | miss =>
      cases he
      exact hk
    | hit hr =>
      dsimp only at he
      split at he <;> cases he
      · exact ⟨rfl, working_lock _ hk.1 hk.2 hr⟩
      · exact hk
  | cleanStorage video =>
    simp only [CancelUpload.step] at h
    split at h
    · next id key _ _ =>
      cases h
      have hw : Working v keys video pid (w.apply pid
          (if a.applied ∧ w.multipart id = some key then .abortMultipart id else .skip)) := by
        split <;> exact hk.congr rfl rfl
      split
      · exact ⟨rfl, hw⟩
      · exact ⟨rfl, video, hw⟩
    · cases h
      split <;> exact ⟨rfl, hk.congr rfl rfl⟩
    · cases h
      exact ⟨rfl, hk⟩
  | rollback =>
    obtain ⟨r, hw⟩ := hk
    cases h
    exact keeps_done (.inr hw.lock) hw.jobs hw.isSettled.commit
  | sumReserved video =>
    cases h
    exact ⟨rfl, hk⟩
  | release video account net =>
    cases h
    exact keeps_done (.inr hk.lock) hk.jobs (isSettled_commit_put ⟨.inl rfl, hk.removable.2⟩)

/-- One turn of a deletion. -/
theorem keeps_deleteFailed {a : Answer} {f : Effect} {pc : Pc}
    (hk : Keeps v keys pid (.deleteFailed v pc) w)
    (h : step S pid v w a pc = some (p', f)) : Keeps v keys pid p' (w.apply pid f) := by
  obtain ⟨-, hk⟩ := hk
  cases pc with
  | lockVideo =>
    simp only [step, Table.locate_eq_some] at h
    obtain ⟨o, ho, he⟩ := h
    cases ho with
    | miss =>
      cases he
      exact hk
    | @hit r hr =>
      dsimp only at he
      split at he
      · cases he
        have hw := working_lock pid hk.1 hk.2 hr
        have hrem := remaining_storageHandles r (w.apply pid (.lock [] [v] []))
        rw [hw.removable.2] at hrem
        split
        · split
          · exact keeps_next hw fun _ => hrem
          · exact ⟨rfl, hw⟩
        · next hn =>
          refine ⟨rfl, hw, fun k hmem => ?_⟩
          simp only [hasStorageCleanupWork, hw.removable.2, Bool.or_eq_true, Bool.not_eq_true',
            List.isEmpty_eq_false_iff, not_or, not_not] at hn
          exact (List.not_mem_nil (hn.2 ▸ hmem)).elim
      · cases he
        exact hk
  | cleanStorage video handle rest failures =>
    obtain ⟨hw, hrem⟩ := hk
    cases h
    have hw' : Working v keys video pid (w.apply pid
        (if a.applied ∧ isKnown w handle then remove handle else .skip)) := by
      split
      · cases handle <;> exact hw.congr rfl rfl
      · exact hw
    refine keeps_next hw' fun hf => ?_
    split at hf
    · next hret =>
      rw [if_pos ⟨Answer.applied_of_returns hret.1, hret.2⟩]
      exact (hrem hf).remove
    · simp at hf
  | markFailed video =>
    cases h
    exact keeps_done (.inr hk.lock) hk.jobs (isSettled_commit_put hk.removable)
  | sumReserved video =>
    cases h
    exact ⟨rfl, hk⟩
  | release video account net =>
    simp only [step] at h
    split at h
    · cases h
      exact keeps_done (.inr hk.1.lock) hk.1.jobs (.inr (isRemoved_commit hk.2))
    · cases h

/-- **One turn** of an attempt. -/
theorem Keeps.step {a : Answer} {f : Effect} (hk : Keeps v keys pid p w)
    (h : p.step S pid a w = some (p', f)) : Keeps v keys pid p' (w.apply pid f) := by
  by_cases ha : ∃ message, a = .error message
  · obtain ⟨message, rfl⟩ := ha
    obtain ⟨hq, rfl⟩ := Proc.step_error.mp h
    have hd {r} (hw : Working v keys r pid w) : Keeps v keys pid .done (w.apply pid (.commit {})) :=
      keeps_done (.inr hw.lock) hw.jobs hw.isSettled.commit
    cases p with
    | cancelUpload v' pc =>
      obtain ⟨-, hk⟩ := hk
      cases hq
      cases pc with
      | lockVideo => exact keeps_done (.inl hk.2.video) hk.2.jobs hk.1.commit
      | cleanStorage | sumReserved | release => exact hd hk
      | rollback =>
        obtain ⟨r, hw⟩ := hk
        exact hd hw
    | deleteFailed v' pc =>
      obtain ⟨-, hk⟩ := hk
      cases hq
      cases pc with
      | lockVideo => exact keeps_done (.inl hk.2.video) hk.2.jobs hk.1.commit
      | markFailed => exact hd hk
      | cleanStorage | sumReserved | release => exact hd hk.1
    | done => cases hq
    | _ => exact hk.elim
  rw [Proc.step_of_not_error fun message he => ha ⟨message, he⟩] at h
  cases p with
  | cancelUpload v' pc =>
    obtain rfl := hk.1
    exact keeps_cancelUpload hk h
  | deleteFailed v' pc =>
    obtain rfl := hk.1
    exact keeps_deleteFailed hk h
  | done => cases h
  | _ => exact hk.elim

/-- **Every run of attempts** leaves the video as it was, as far as its keys go, or removed. -/
theorem Retries.settled (h : Retries S v keys w₀ w) (hs : IsSettled v keys w₀)
    (hu : Unlocked v w₀) : IsSettled v keys w ∧ Unlocked v w := by
  refine h.invariant (Q := fun w => IsSettled v keys w ∧ Unlocked v w) ?_ ?_ ⟨hs, hu⟩
  · intro p w w' hp hq ha
    have hk (pid : Pid) : Keeps v keys pid p w := by
      rcases hp with rfl | rfl <;> exact ⟨rfl, hq⟩
    obtain ⟨pid, hk⟩ := ha.invariant (Q := Keeps v keys) (fun _ _ _ _ _ _ => Keeps.step) hk
    exact hk
  · intro w w' hq hb
    exact ⟨hq.1.congr hb.row hb.objects, hb.lock.trans hq.2.video,
      fun s => (hb.jobLocks s).trans (hq.2.jobs s)⟩

/-! What an attempt makes of the states in which it can begin -/

/-- Without cleanup work there is nothing to remove from the storage. -/
theorem storageHandles_eq_nil (h : hasStorageCleanupWork r = false) : storageHandles r = [] := by
  simp only [hasStorageCleanupWork, Bool.or_eq_false_iff, Option.isSome_eq_false_iff,
    Option.isNone_iff_eq_none, Bool.not_eq_false', List.isEmpty_iff] at h
  simp [storageHandles, h.1, h.2]

theorem step_lockVideo (pid : Pid) (hS : S.storageConfigured = true) (hs : IsSettled v keys w)
    (hu : Unlocked v w) (hr : w.videos.row v = some r) :
    (Proc.deleteFailed v .lockVideo).step S pid .ok w =
      some (.deleteFailed v (next r [] (storageHandles r)), .lock [] [v] []) := by
  simp only [Proc.step, Proc.turn, step, Table.locate, Table.Free, hr, hu.video, true_or, if_true,
    (hs.removable hr).1, hS]
  cases hwork : hasStorageCleanupWork r with
  | true => rfl
  | false => rw [storageHandles_eq_nil hwork, if_neg Bool.false_ne_true, next, if_pos rfl]

/-- The video has been removed already. -/
theorem IsRemoved.removes (h : IsRemoved v keys w) : Removes S pid v keys w :=
  ⟨_, .last (f := .skip) (by simp [Proc.step, Proc.turn, step, Table.locate, h.row]), h⟩

/-- Nothing remains in the storage, and the row is deleted. -/
theorem Working.removes (hw : Working v keys r pid w) (ho : Remaining keys [] w) :
    ∃ w', Unhindered S pid (.deleteFailed v (.sumReserved r)) w w' ∧ IsRemoved v keys w' := by
  have hj : ∀ s ∈ ProcessingJobStage.all, w.jobs.Free pid ⟨v, s⟩ := fun s _ => .inl (hw.jobs s)
  refine ⟨_, .turn rfl (.last (f := .commit {
    deleted := [v]
    usageEvents := releaseEvents (sumReserved w r.teamId v).1 (sumReserved w r.teamId v).2
      r.teamId v w.now
    auditLogs := [(.videoDeleted, .video v)] }) ?_), isRemoved_commit ho⟩
  simp only [Proc.step, Proc.turn, step]
  exact if_pos hj

/-- The objects are removed one after the other. -/
theorem Working.removes_objects {todo : List StorageKey} (hw : Working v keys r pid w)
    (ho : Remaining keys (todo.map .object) w) :
    ∃ w', Unhindered S pid (.deleteFailed v (next r [] (todo.map .object))) w w' ∧
      IsRemoved v keys w' := by
  induction todo generalizing w with
  | nil =>
    simp only [List.map_nil, next, if_true]
    exact hw.removes ho
  | cons key rest ih =>
    have hw' : Working v keys r pid (w.apply pid (remove (.object key))) := hw.congr rfl rfl
    obtain ⟨w', hr, hd⟩ := ih hw' ho.remove
    exact ⟨w', .turn (f := remove (.object key)) rfl hr, hd⟩

/-- One removal has failed, and the row is marked. -/
theorem Working.marks {failures : List StorageHandle} (hf : failures ≠ []) {todo : List StorageKey}
    (hw : Working v keys r pid w) :
    ∃ w', Unhindered S pid (.deleteFailed v (next r failures (todo.map .object))) w w' ∧
      (∃ q, w'.videos.row v = some q ∧ q.uploadId = r.uploadId ∧
        q.storageKeyRaw = r.storageKeyRaw) ∧ w'.multipart = w.multipart := by
  induction todo generalizing w with
  | nil =>
    simp only [List.map_nil, next, hf, if_false]
    exact ⟨_, .last rfl, ⟨markCleanupFailed w r, by simp [World.apply, Table.row_put], rfl, rfl⟩,
      rfl⟩
  | cons key rest ih =>
    have hw' : Working v keys r pid (w.apply pid (remove (.object key))) := hw.congr rfl rfl
    obtain ⟨w', hr, hd, hm⟩ := ih hw'
    exact ⟨w', .turn (f := remove (.object key)) rfl hr, hd, hm⟩

theorem storageHandles_of_upload {id : UploadId} {key : StorageKey} (hid : r.uploadId = some id)
    (hkey : r.storageKeyRaw = some key) : storageHandles r =
      .multipart id key :: (storageKeys r).eraseDups.map .object := by
  simp [storageHandles, hid, hkey]

theorem storageHandles_of_no_upload
    (h : ∀ id key, r.uploadId = some id → r.storageKeyRaw ≠ some key) :
    storageHandles r = (storageKeys r).eraseDups.map .object := by
  unfold storageHandles
  split
  · next id key hid hkey => exact (h id key hid hkey).elim
  · rfl

/-- Every call of the attempt can succeed. -/
theorem removes_of_open (hS : S.storageConfigured = true) (hs : IsSettled v keys w)
    (hu : Unlocked v w) (hr : w.videos.row v = some r)
    (hopen : ∀ id key, r.uploadId = some id → r.storageKeyRaw = some key →
      w.multipart id = some key) : Removes S pid v keys w := by
  have hlock := step_lockVideo pid hS hs hu hr
  have hw := working_lock pid hs hu hr
  have hrem := remaining_storageHandles r (w.apply pid (.lock [] [v] []))
  rw [hw.removable.2] at hrem
  by_cases hup : ∃ id key, r.uploadId = some id ∧ r.storageKeyRaw = some key
  · obtain ⟨id, key, hid, hkey⟩ := hup
    rw [storageHandles_of_upload hid hkey] at hlock hrem
    have hknown : isKnown (w.apply pid (.lock [] [v] [])) (.multipart id key) = true :=
      decide_eq_true (hopen id key hid hkey)
    have hw' : Working v keys r pid ((w.apply pid (.lock [] [v] [])).apply pid
        (remove (.multipart id key))) := hw.congr rfl rfl
    obtain ⟨w', hrun, hd⟩ := hw'.removes_objects (S := S) hrem.remove
    refine ⟨w', .turn hlock (.turn (f := remove (.multipart id key)) ?_ hrun), hd⟩
    simp [Proc.step, Proc.turn, step, next, hknown, Answer.returns, Answer.applied]
  · have hno : ∀ id key, r.uploadId = some id → r.storageKeyRaw ≠ some key :=
      fun id key hid hkey => hup ⟨id, key, hid, hkey⟩
    rw [storageHandles_of_no_upload hno] at hlock hrem
    obtain ⟨w', hrun, hd⟩ := hw.removes_objects (S := S) hrem
    exact ⟨w', .turn hlock hrun, hd⟩

/-- The upload id has been consumed: the storage reports an error, and the row stays. -/
theorem not_removes_of_consumed (hS : S.storageConfigured = true) (hs : IsSettled v keys w)
    (hu : Unlocked v w) (hr : w.videos.row v = some r) {id : UploadId} {key : StorageKey}
    (hid : r.uploadId = some id) (hkey : r.storageKeyRaw = some key)
    (hopen : w.multipart id ≠ some key) : ¬ Removes S pid v keys w := by
  rintro ⟨w', hrun, hd⟩
  have hlock := step_lockVideo pid hS hs hu hr
  have hw := working_lock pid hs hu hr
  rw [storageHandles_of_upload hid hkey] at hlock
  have hunknown : isKnown (w.apply pid (.lock [] [v] [])) (.multipart id key) = false :=
    decide_eq_false hopen
  have hskip : (Proc.deleteFailed v (next r [] (.multipart id key ::
      (storageKeys r).eraseDups.map .object))).step S pid .ok (w.apply pid (.lock [] [v] [])) =
      some (.deleteFailed v (next r [.multipart id key] ((storageKeys r).eraseDups.map .object)),
        .skip) := by
    simp [Proc.step, Proc.turn, step, next, hunknown]
  have hfail := (hrun.of_turn hlock).of_turn hskip
  obtain ⟨w'', hrun', ⟨q, hq, -⟩, -⟩ := hw.marks (S := S) (List.cons_ne_nil _ _)
  cases hfail.unique hrun'
  cases hd.row.symm.trans hq

/-- **Removing a video.** After any attempts at cancelling its upload and deleting it, an attempt to
delete the video during which the storage is reachable removes it if and only if its row has no
upload id to abort, or the upload is still open. -/
theorem removes_iff (hS : S.storageConfigured = true) (hs : IsSettled v keys w₀)
    (hu : Unlocked v w₀) (h : Retries S v keys w₀ w) :
    Removes S pid v keys w ↔ ∀ r id key, w.videos.row v = some r → r.uploadId = some id →
      r.storageKeyRaw = some key → w.multipart id = some key := by
  obtain ⟨hs, hu⟩ := h.settled hs hu
  constructor
  · intro hrem r id key hr hid hkey
    by_contra hopen
    exact not_removes_of_consumed hS hs hu hr hid hkey hopen hrem
  · intro hopen
    cases hr : w.videos.row v with
    | none =>
      rcases hs with ⟨q, hq, -⟩ | hd
      · cases hr.symm.trans hq
      · exact hd.removes
    | some r => exact removes_of_open hS hs hu hr fun id key => hopen r id key hr

/-- An attempt in which the storage does not answer, whether it has aborted the upload or not. -/
theorem exists_attempt_failing {id : UploadId} {key : StorageKey} (consumed : Bool)
    (hS : S.storageConfigured = true) (hs : IsSettled v keys w) (hu : Unlocked v w)
    (hr : w.videos.row v = some r) (hid : r.uploadId = some id) (hkey : r.storageKeyRaw = some key)
    (hopen : w.multipart id = some key) :
    ∃ w', Attempt S (.deleteFailed v .lockVideo) w w' ∧
      (∃ q, w'.videos.row v = some q ∧ q.uploadId = some id ∧ q.storageKeyRaw = some key) ∧
      w'.multipart id = if consumed then none else some key := by
  have hlock := step_lockVideo 0 hS hs hu hr
  have hw := working_lock 0 hs hu hr
  rw [storageHandles_of_upload hid hkey] at hlock
  have hknown : isKnown (w.apply 0 (.lock [] [v] [])) (.multipart id key) = true :=
    decide_eq_true hopen
  let f : Effect := if consumed then remove (.multipart id key) else .skip
  have habort : (Proc.deleteFailed v (next r [] (.multipart id key ::
      (storageKeys r).eraseDups.map .object))).step S 0
        (if consumed then .faultApplied else .fault) (w.apply 0 (.lock [] [v] [])) =
      some (.deleteFailed v (next r [.multipart id key]
        ((storageKeys r).eraseDups.map .object)), f) := by
    cases consumed <;>
      simp [Proc.step, Proc.turn, step, next, hknown, Answer.returns, Answer.applied, f]
  have hw' : Working v keys r 0 ((w.apply 0 (.lock [] [v] [])).apply 0 f) := by
    cases consumed <;> exact hw.congr rfl rfl
  obtain ⟨w', hrun, ⟨q, hq, hqid, hqkey⟩, hm⟩ := hw'.marks (S := S) (List.cons_ne_nil _ _)
  refine ⟨w', ⟨0, .turn trivial (step_system_eq_some.mpr ⟨_, hlock, rfl⟩) (.turn trivial
    (step_system_eq_some.mpr ⟨_, habort, rfl⟩) (hrun.mono fun _ _ => trivial))⟩,
    ⟨q, hq, hqid.trans hid, hqkey.trans hkey⟩, ?_⟩
  rw [hm]
  cases consumed with
  | true => simp [f, remove, World.apply, World.setMultipart]
  | false => exact hopen

/-- The keys of the objects of `largeUpload`. -/
def largeKeys : List StorageKey := [storageKeyForVideo 0]

theorem isSettled_largeUpload (h : w.videos.row 0 = some largeUpload) :
    IsSettled 0 largeKeys w := .inl ⟨_, h, .inr rfl, rfl⟩

/-- The storage does not answer to the first attempt, which has done nothing. The second attempt
removes the video. -/
theorem exists_removes :
    ∃ c : State, (system .default).Reach Deployed Machine.Always c ∧
      ∃ w, Attempt .default (.deleteFailed 0 .lockVideo) c.world w ∧
        w.videos.row 0 ≠ none ∧ Removes .default 1 0 largeKeys w := by
  obtain ⟨c, hc, hrow, hlock, hopen, -, hjobs⟩ := exists_largeUpload
  have hs := isSettled_largeUpload hrow
  obtain ⟨w, ha, ⟨q, hq, hid, hkey⟩, hopen'⟩ := exists_attempt_failing (S := .default) false rfl hs
    ⟨hlock, hjobs⟩ hrow rfl rfl hopen
  refine ⟨c, hc, w, ha, by simp [hq], (removes_iff rfl hs ⟨hlock, hjobs⟩
    (.single (.inl ⟨_, .inr rfl, ha⟩))).mpr ?_⟩
  intro r id key hr hrid hrkey
  cases hq.symm.trans hr
  cases hid.symm.trans hrid
  cases hkey.symm.trans hrkey
  exact hopen'

/-- The answer of the storage to the first attempt is lost, and no later attempt can succeed. -/
theorem exists_not_removes :
    ∃ c : State, (system .default).Reach Deployed Machine.Always c ∧
      IsSettled 0 largeKeys c.world ∧ Unlocked 0 c.world ∧
      ∃ w, Retries .default 0 largeKeys c.world w ∧ ¬ Removes .default 1 0 largeKeys w := by
  obtain ⟨c, hc, hrow, hlock, hopen, -, hjobs⟩ := exists_largeUpload
  have hs := isSettled_largeUpload hrow
  obtain ⟨w, ha, ⟨q, hq, hid, hkey⟩, hnone⟩ := exists_attempt_failing (S := .default) true rfl hs
    ⟨hlock, hjobs⟩ hrow rfl rfl hopen
  have hr : Retries .default 0 largeKeys c.world w := .single (.inl ⟨_, .inr rfl, ha⟩)
  obtain ⟨hs', hu'⟩ := hr.settled hs ⟨hlock, hjobs⟩
  exact ⟨c, hc, hs, ⟨hlock, hjobs⟩, w, hr,
    not_removes_of_consumed rfl hs' hu' hq hid hkey (by simp [hnone])⟩

end DeleteFailedVideo

end NextBallUp
