import NextBallUp.Objects

/-!
# The ledger and the identifiers of videos

What a turn adds to `usage_events`: the two entries of an upload, or the release that three paths
share. And that no identifier is used twice: once a video has been inserted, or its upload been
given up, nobody inserts a video under the same identifier again, even after the row is gone.

## Main definitions

* `Release`, `Proc.releasing`: a quota release that is about to be recorded
* `LedgerMove`: what a turn can add to the ledger
* `State.Used`: an identifier under which nobody will insert a video any more

## Main results

* `Proc.ledgerMove`: every turn adds to the ledger in one of these ways
* `identified_of_reach`: in every run, all videos that rows, passes and entries name are used
-/

namespace NextBallUp

variable {S : Settings} {w w' : World} {pid : Pid} {a : Answer} {p p' : Proc} {f : Effect}

/-! ### What a turn adds to the ledger -/

/-- A call of `release_video_upload_quota_reservation` that has read the ledger: what it has found
there, and what for. -/
structure Release where
  videoId : VideoId
  teamId : TeamId
  account : Option AccountId
  net : ℤ

/-- The entry that the call records. -/
def Release.events (r : Release) (now : Time) : List UsageEvent :=
  releaseEvents r.account r.net r.teamId r.videoId now

/-- The release that the process is about to record. -/
def Proc.releasing : Proc → Option Release
  | .abandoned (.release video _ _ account net _ _) =>
    some ⟨video.1, video.2.teamId, account, net⟩
  | .cancelUpload v (.release video account net) | .deleteFailed v (.release video account net) =>
    some ⟨v, video.teamId, account, net⟩
  | _ => none

/-- What a turn of `p` in the world `w` can add to the ledger. -/
inductive LedgerMove (w : World) (p : Proc) : List UsageEvent → Prop
  | nothing : LedgerMove w p []
  | initiate {req checked plan v uploadId account} :
    p = .initiate req (.insertVideo checked plan v uploadId) →
    LedgerMove w p (initiateEvents account req.teamId v req.fileSizeBytes w.now)
  | release {r} : p.releasing = some r → LedgerMove w p (r.events w.now)

/-- The ledger entries of a transaction. -/
def Effect.usageEvents : Effect → List UsageEvent
  | .commit tx => tx.usageEvents
  | _ => []

theorem usageEvents_apply :
    (w.apply pid f).usageEvents = w.usageEvents ++ f.usageEvents := by
  cases f <;> simp [World.apply, Effect.usageEvents, World.draw, World.setObject,
    World.setMultipart]

theorem ledgerMove_of_commits {tx : Tx} (h : Commits S pid w p tx) :
    LedgerMove w p tx.usageEvents := by
  cases h with
  | insertVideo hp => exact .initiate hp
  | @abandonedRelease video moved cleaned account net rest turns log hp =>
    exact .release (r := ⟨_, _, _, _⟩) (by rw [hp]; rfl)
  | cancelUpload hp | deleteVideo hp => exact .release (r := ⟨_, _, _, _⟩) (by rw [hp]; rfl)
  | _ => exact .nothing

/-- **What a turn adds to the ledger.** -/
theorem Proc.ledgerMove (h : p.Holds S pid w) (hs : p.step S pid a w = some (p', f)) :
    LedgerMove w p f.usageEvents := by
  cases f with
  | commit tx => exact ledgerMove_of_commits (Proc.commits h hs)
  | _ => exact .nothing

/-- The same when accounts and links may have changed. -/
theorem Proc.ledgerMove_of_rows (h : p.HoldsRows S pid w) (hs : p.step S pid a w = some (p', f)) :
    LedgerMove w p f.usageEvents := by
  by_cases hp : ∃ req pc, p = .initiate req pc
  · obtain ⟨req, pc, rfl⟩ := hp
    cases f with
    | commit tx =>
      rcases InitiateUpload.step_commit hs with ⟨log, rfl⟩ | ⟨account, plan, v, id, rfl, log, rfl⟩
      · exact .nothing
      · show LedgerMove w _ (uploadEvents w req.teamId v req.fileSizeBytes)
        rcases uploadEvents_cases w req.teamId v req.fileSizeBytes with h | ⟨account, h⟩ <;> rw [h]
        · exact .nothing
        · exact .initiate rfl
    | _ => exact .nothing
  · exact Proc.ledgerMove (h.holds hp) hs

theorem Release.of_mem_events {r : Release} {now : Time} {e : UsageEvent} (h : e ∈ r.events now) :
    r.account = some e.billingAccountId ∧ 0 < r.net ∧
      e = ⟨e.billingAccountId, r.teamId, .videoUploadInitiated, -1, now, r.videoId⟩ := by
  unfold events releaseEvents at h
  split at h
  · cases h
  · next account hr =>
    split at h
    · cases h
    · next hn =>
      rw [List.mem_singleton.mp h]
      exact ⟨hr, Int.not_le.mp hn, rfl⟩

theorem mem_initiateEvents {account : AccountId} {team : TeamId} {v : VideoId} {n : ℕ} {now : Time}
    {e : UsageEvent} (h : e ∈ initiateEvents account team v n now) :
    e.billingAccountId = account ∧ e.teamId = team ∧ e.videoId = v := by
  simp only [initiateEvents, List.mem_cons, List.not_mem_nil, or_false] at h
  rcases h with rfl | rfl <;> exact ⟨rfl, rfl, rfl⟩

/-! ### Identifiers -/

/-- The video for which a request has drawn an identifier, and which it has not inserted yet. -/
def Proc.inserting : Proc → Option VideoId
  | .initiate _ (.presign _ _ video) | .initiate _ (.insertVideo _ _ video _) => some video
  | _ => none

/-- The videos that a pass has still to treat. -/
def Proc.batch : Proc → List (VideoId × Video)
  | .abandoned pc => CleanupAbandonedUploads.batch pc
  | .rawDeletes _ pc => RawDeletes.batch pc
  | _ => []

/-- The identifier has been drawn, and nobody is going to insert a video under it. -/
structure State.Used (c : State) (v : VideoId) : Prop where
  drawn : v < c.world.uuid
  free : ∀ i, (c.procs i).inserting ≠ some v

theorem InitiateUpload.step_inserting {req : InitiateUpload} {pc pc' : Pc} {v : VideoId}
    (h : step S pid req w a pc = some (.initiate req pc', f))
    (hv : (Proc.initiate req pc').inserting = some v) :
    (Proc.initiate req pc).inserting = some v ∨ v = w.uuid := by
  cases pc <;> simp only [step, deny] at h <;> grind [Proc.inserting]

theorem Proc.step_inserting {v : VideoId} (h : p.step S pid a w = some (p', f))
    (hv : p'.inserting = some v) : p.inserting = some v ∨ v = w.uuid := by
  cases p' with
  | initiate req pc' =>
    obtain ⟨pc, rfl, hs⟩ := Proc.step_origin h
    exact InitiateUpload.step_inserting hs hv
  | _ => cases hv

theorem Proc.step_batch (h : p.step S pid a w = some (p', f)) :
    (∃ ids, p'.batch = w.videos.rows ids) ∨ p'.batch ⊆ p.batch := by
  cases p' with
  | abandoned pc' =>
    obtain ⟨pc, rfl, hs⟩ := Proc.step_origin h
    exact CleanupAbandonedUploads.step_batch hs
  | rawDeletes pass pc' =>
    obtain ⟨pc, rfl, hs⟩ := Proc.step_origin h
    exact RawDeletes.step_batch hs
  | _ => exact .inr (List.nil_subset _)

theorem uuid_apply : w.uuid ≤ (w.apply pid f).uuid := by
  cases f <;> simp [World.apply, World.commit, World.draw, World.setObject, World.setMultipart]

/-- A used identifier stays so. -/
theorem State.Used.after {c : State} {i : Pid} {v : VideoId} (hv : c.Used v)
    (hs : (c.procs i).step S i a c.world = some (p, f)) : (c.after i p f).Used v := by
  refine ⟨Nat.lt_of_lt_of_le hv.drawn uuid_apply, fun j hj => ?_⟩
  by_cases hji : j = i
  · subst hji
    rw [State.procs_after] at hj
    rcases Proc.step_inserting hs hj with h | h
    · exact hv.free _ h
    · exact Nat.lt_irrefl _ (h ▸ hv.drawn)
  · rw [State.procs_after_of_ne _ _ _ _ hji] at hj
    exact hv.free j hj

/-- The turn that inserts a video uses its identifier. -/
theorem State.used_after_insert {c : State} {i : Pid} {req : InitiateUpload} {account : AccountId}
    {plan : Plan} {v : VideoId} {uploadId : Option UploadId} (hc : c.HoldsRows S)
    (hp : c.procs i = .initiate req (.insertVideo account plan v uploadId))
    (hs : (c.procs i).step S i a c.world = some (p, f)) : (c.after i p f).Used v := by
  have hh := hc i
  rw [hp] at hh hs
  have owns {j} (hj : (c.procs j).inserting = some v) : c.world.videos.Owns j v none := by
    have := hc j
    revert this hj
    cases c.procs j with
    | initiate req pc =>
      cases pc <;> intro h hj <;> cases h
      · exact hj.1
      · exact hj.1
    | _ => intro h; cases h
  refine ⟨Nat.lt_of_lt_of_le hh.2 uuid_apply, fun j hj => ?_⟩
  by_cases hji : j = i
  · subst hji
    rw [State.procs_after] at hj
    have hdone : p.inserting = none := by
      by_cases ha : ∃ message, a = .error message
      · obtain ⟨message, rfl⟩ := ha
        cases (Proc.step_error.mp hs).1
        rfl
      · rw [Proc.step_of_not_error (fun m hm => ha ⟨m, hm⟩)] at hs
        cases hs
        rfl
    cases hdone.symm.trans hj
  · rw [State.procs_after_of_ne _ _ _ _ hji] at hj
    exact hji ((owns hj).session_eq hh.1)

/-- All videos that something names are used. -/
structure State.Identified (c : State) : Prop where
  rows : ∀ v r, c.world.videos.row v = some r → c.Used v
  batches : ∀ i, ∀ x ∈ (c.procs i).batch, c.Used x.1
  events : ∀ e ∈ c.world.usageEvents, c.Used e.videoId

/-- The video of a release is used. -/
theorem State.Identified.releasing {c : State} (h : c.Identified) (hc : c.HoldsRows S) {i : Pid}
    {r : Release} (hr : (c.procs i).releasing = some r) : c.Used r.videoId := by
  have hh := hc i
  have hb := h.batches i
  revert hh hb hr
  cases c.procs i with
  | abandoned pc =>
    cases pc <;> intro hr hh hb <;> cases hr
    exact hb _ (List.mem_cons_self ..)
  | cancelUpload v pc =>
    cases pc <;> intro hr hh hb <;> cases hr
    exact h.rows _ _ hh.1.2
  | deleteFailed v pc =>
    cases pc <;> intro hr hh hb <;> cases hr
    exact h.rows _ _ hh.1.2
  | _ => intro hr; cases hr

theorem Deployed.identified {c : State} (h : Deployed c) : c.Identified := by
  obtain ⟨⟨accounts, links, hw⟩, hf⟩ := h
  refine ⟨fun v r hr => ?_, fun i => ?_, fun e he => ?_⟩
  · rw [hw] at hr
    cases hr
  · have := hf i
    revert this
    cases c.procs i with
    | abandoned pc | rawDeletes _ pc =>
      cases pc <;> intro h <;>
        first | exact h.elim | simp [Proc.batch, CleanupAbandonedUploads.batch, RawDeletes.batch]
    | _ => simp [Proc.batch]
  · rw [hw] at he
    cases he

/-- What a turn names is used. -/
theorem State.Identified.after {c : State} {i : Pid} (hc : c.Identified) (hrows : c.HoldsRows S)
    (hs : (c.procs i).step S i a c.world = some (p, f)) : (c.after i p f).Identified := by
  refine ⟨fun v r hr => ?_, fun j x hx => ?_, fun e he => ?_⟩
  · have hm := Proc.videoMove_of_rows (hrows i) hs v
    cases hrow : c.world.videos.row v with
    | some r₀ => exact (hc.rows v r₀ hrow).after hs
    | none =>
      have hr : (c.world.apply i f).videos.row v = some r := hr
      rw [hrow, hr] at hm
      cases hm with
      | insert hp => exact State.used_after_insert hrows hp hs
  · by_cases hj : j = i
    · subst hj
      rw [State.procs_after] at hx
      rcases Proc.step_batch hs with ⟨ids, hb⟩ | hb
      · rw [hb, Table.mem_rows] at hx
        exact (hc.rows x.1 x.2 hx.2).after hs
      · exact (hc.batches j x (hb hx)).after hs
    · rw [State.procs_after_of_ne _ _ _ _ hj] at hx
      exact (hc.batches j x hx).after hs
  · rw [State.world_after, usageEvents_apply, List.mem_append] at he
    rcases he with he | he
    · exact (hc.events e he).after hs
    · have hm := Proc.ledgerMove_of_rows (hrows i) hs
      generalize f.usageEvents = events at hm he
      cases hm with
      | nothing => cases he
      | initiate hp =>
        rw [(mem_initiateEvents he).2.2]
        exact State.used_after_insert hrows hp hs
      | @release r hr =>
        rw [(Release.of_mem_events he).2.2]
        exact (hc.releasing hrows hr).after hs

/-- **In every run, no identifier that something names is used again.** -/
theorem identified_of_reach {ok : State → Pid → Answer → Prop} {c : State}
    (h : (system S).Reach Deployed ok c) : c.Identified :=
  invariant_of_reach (Q := State.Identified) (fun _ hc => hc.identified)
    (fun _ _ _ _ _ hreach hc _ hs => hc.after (sound_of_reach hreach).rows hs) h

/-! ### Deleted jobs -/

/-- The job has gone together with its video, for good. -/
def State.Gone (c : State) (j : JobId) : Prop :=
  c.world.jobs.row j = none ∧ c.world.videos.row j.videoId = none ∧ c.Used j.videoId

/-- The deletion of a video deletes all its jobs, or changes no job. -/
theorem rows_deleted {v : VideoId} {video : Video} {account : Option AccountId} {net : ℤ}
    (hs : (Proc.deleteFailed v (.release video account net)).step S pid a w = some (p, f)) :
    (w.apply pid f).jobs.row = w.jobs.row ∨ (w.apply pid f).videos.row v = none ∧
      ∀ j, (w.apply pid f).jobs.row j = if j.videoId = v then none else w.jobs.row j := by
  by_cases ha : a.isError = true
  · obtain ⟨message, rfl⟩ := Answer.isError_iff.mp ha
    obtain ⟨-, rfl⟩ := Proc.step_error.mp hs
    exact .inl (funext fun j => by simp [World.apply])
  · rw [Proc.step_of_not_error fun m hm => ha (by rw [hm]; rfl)] at hs
    simp only [Proc.turn, DeleteFailedVideo.step] at hs
    split at hs
    · cases hs
      exact .inr ⟨by simp [World.apply], fun j => by simp [World.apply]⟩
    · cases hs

/-- The turn that deletes a job of a video deletes the video. -/
theorem video_deleted {v : VideoId} {video : Video} {account : Option AccountId} {net : ℤ}
    {j : JobId} (hs : (Proc.deleteFailed v (.release video account net)).step S pid a w =
      some (p, f)) (hr : w.jobs.row j ≠ none) (hr' : (w.apply pid f).jobs.row j = none) :
    (w.apply pid f).videos.row v = none := by
  rcases rows_deleted hs with hsame | ⟨hv, -⟩
  · rw [hsame] at hr'
    exact (hr hr').elim
  · exact hv

section Gone

variable {c : State} {i : Pid} {j : JobId}

theorem State.Gone.after (h : c.Gone j) (hsound : c.Sound S)
    (hs : (c.procs i).step S i a c.world = some (p, f)) : (c.after i p f).Gone j := by
  obtain ⟨hr, hv, hu⟩ := h
  have hjm := Proc.jobMove (hsound.holds i) hs j
  have hvm := Proc.videoMove (hsound.holds i) hs j.videoId
  rw [hr] at hjm
  rw [hv] at hvm
  refine ⟨?_, ?_, hu.after hs⟩ <;> rw [State.world_after]
  · generalize (c.world.apply i f).jobs.row j = o at hjm
    cases hjm with
    | keep | delete => rfl
    | insert _ hne => exact (hne hv).elim
  · generalize (c.world.apply i f).videos.row j.videoId = o at hvm
    cases hvm with
    | keep => rfl
    | insert hp => exact (hu.free i (by rw [hp]; rfl)).elim

/-- A job that is deleted is gone. -/
theorem State.gone_after_delete (hsound : c.Sound S) (hid : c.Identified)
    (hs : (c.procs i).step S i a c.world = some (p, f)) (hr : c.world.jobs.row j ≠ none)
    (hr' : (c.after i p f).world.jobs.row j = none) : (c.after i p f).Gone j := by
  have hm := Proc.jobMove (hsound.holds i) hs j
  have hh := hsound.holds i
  rw [State.world_after] at hr'
  refine ⟨hr', ?_⟩
  generalize hrow : c.world.jobs.row j = o at hm
  rw [hr'] at hm
  cases hm with
  | keep => exact (hr hrow).elim
  | delete hp =>
    rw [hp] at hh
    refine ⟨?_, (hid.rows _ _ hh.1.2).after hs⟩
    rw [hp] at hs
    exact video_deleted hs hr hr'

end Gone

end NextBallUp
