import NextBallUp.Moves

/-!
# Which objects a turn touches

A storage key that a row or a process holds belongs to the video it is held for. So a process that
puts or deletes an object at the key of an output is a transcode of that very video, or the request
that deletes it.

## Main definitions

* `Video.Keyed`, `Proc.Keyed`: the storage keys are those of the video

## Main results

* `keyed_of_reach`: in every run, all storage keys are those of their videos
* `Proc.outputMove`: the turns that put or delete the output of a video
-/

namespace NextBallUp

variable {S : Settings} {w w' : World} {pid : Pid} {a : Answer} {p p' : Proc} {f : Effect}

/-- The storage keys of the row are those of the video `v`. -/
structure Video.Keyed (v : VideoId) (r : Video) : Prop where
  raw : ∀ k, r.storageKeyRaw = some k → k = storageKeyForVideo v
  mezzanine : ∀ k, r.storageKeyMezzanine = some k → k = storageKeyForMezzanine v
  /-- Nothing here produces manifests or previews. -/
  others : r.storageKeyHls = none ∧ r.demoPreviewStorageKey = none

/-- The object is one of the video `v`. -/
def StorageHandle.Keyed (v : VideoId) : StorageHandle → Prop
  | .multipart .. => True
  | .object key => key = storageKeyForVideo v ∨ key = storageKeyForMezzanine v

/-- The output is that of the execution's video. -/
def ExecuteTranscode.Keyed (e : Execution) : ExecuteTranscode.Pc → Prop
  | .lockJob _ _ artifact | .materialize _ _ artifact _ | .auditOutput _ artifact
  | .heartbeat80 _ artifact | .completeJob _ artifact | .deleteOutput artifact =>
    artifact.mezzanineKey = storageKeyForMezzanine e.job.videoId
  | _ => True

/-- The rows that a pass over uploads has read and has still to treat. -/
def CleanupAbandonedUploads.batch : CleanupAbandonedUploads.Pc → List (VideoId × Video)
  | .cleanStorage video rest _ | .setFailed video _ rest _ | .sumReserved video _ _ rest _
  | .release video _ _ _ _ rest _ => video :: rest
  | .select | .finished _ => []

/-- The storage keys that a process holds are those of the videos it holds them for. -/
def Proc.Keyed : Proc → Prop
  | .transcode e pc => ExecuteTranscode.Keyed e pc
  | .abandoned pc => ∀ x ∈ CleanupAbandonedUploads.batch pc, x.2.Keyed x.1
  | .rawDeletes _ pc => ∀ x ∈ RawDeletes.batch pc, x.2.Keyed x.1
  | .deleteFailed v (.cleanStorage _ handle rest _) => ∀ h ∈ handle :: rest, h.Keyed v
  | _ => True

/-! ### Rows -/

theorem VideoMove.keyed {v : VideoId} {o o' : Option Video} (hp : p.Keyed)
    (h : VideoMove S w p v o o') (ho : ∀ r, o = some r → r.Keyed v) :
    ∀ r, o' = some r → r.Keyed v := by
  cases h with
  | keep => exact ho
  | insert =>
    rintro _ ⟨⟩
    exact ⟨by rintro _ ⟨⟩; rfl, by rintro _ ⟨⟩, rfl, rfl⟩
  | delete => rintro _ ⟨⟩
  | materialize hpc hv =>
    subst hpc hv
    rintro _ ⟨⟩
    exact ⟨(ho _ rfl).raw, by rintro _ ⟨⟩; exact hp, (ho _ rfl).others⟩
  | raw _ _ _ hu =>
    rintro _ ⟨⟩
    refine ⟨fun k hk => ?_, fun k hk => (ho _ rfl).mezzanine k (hu.storageKeyMezzanine ▸ hk),
      hu.storageKeyHls ▸ (ho _ rfl).others.1, hu.demoPreviewStorageKey ▸ (ho _ rfl).others.2⟩
    rcases hu.storageKeyRaw with he | he
    · exact (ho _ rfl).raw k (he ▸ hk)
    · cases he.symm.trans hk
  | _ =>
    rintro _ ⟨⟩
    exact ⟨(ho _ rfl).raw, (ho _ rfl).mezzanine, (ho _ rfl).others⟩

/-! ### Processes -/

theorem ExecuteTranscode.step_keyed {e : Execution} {pc pc' : Pc} (hk : Keyed e pc)
    (h : step S pid e w a pc = some (.transcode e pc', f)) : Keyed e pc' := by
  cases pc <;> simp only [step, raise, escape, heartbeat, updateJob_eq_some, updateVideo_eq_some,
    lockAndSetJob_eq_some, Table.locate_eq_some] at h
  all_goals grind [updateJob_eq_some, Keyed]

theorem Table.keyed_rows {ids : List VideoId}
    (hrows : ∀ v r, w.videos.row v = some r → r.Keyed v) :
    ∀ x ∈ w.videos.rows ids, x.2.Keyed x.1 := fun x hx => hrows x.1 x.2 (Table.mem_rows.mp hx).2

theorem CleanupAbandonedUploads.batch_loop (turns : List AbandonedTurn)
    (todo : List (VideoId × Video)) : batch (loop turns todo) = todo := by
  cases todo <;> rfl

/-- A pass reads its batch once, and then works it off. -/
theorem CleanupAbandonedUploads.step_batch {pc pc' : Pc}
    (h : step S pid w a pc = some (.abandoned pc', f)) :
    (∃ ids, batch pc' = w.videos.rows ids) ∨ batch pc' ⊆ batch pc := by
  cases pc <;> simp only [step, Table.locate_eq_some] at h
  all_goals grind [batch_loop, batch]

theorem RawDeletes.batch_loop (pass : RawPass) (now : Time) (deleted : List VideoId)
    (todo : List (VideoId × Video)) : batch (loop pass now deleted todo) = todo := by
  cases todo <;> cases pass <;> rfl

/-- A pass reads its batch once, and then works it off. -/
theorem RawDeletes.step_batch {pass : RawPass} {pc pc' : Pc}
    (h : step S pass pid w a pc = some (.rawDeletes pass pc', f)) :
    (∃ ids, batch pc' = w.videos.rows ids) ∨ batch pc' ⊆ batch pc := by
  cases pc <;> simp only [step, updateVideo_eq_some] at h
  all_goals grind [batch_loop, batch]

theorem DeleteFailedVideo.keyed_storageHandles {v : VideoId} {r : Video} (hr : r.Keyed v) :
    ∀ h ∈ storageHandles r, h.Keyed v := by
  intro h hh
  rcases List.mem_append.mp hh with hh | hh
  · split at hh
    · rw [List.mem_singleton.mp hh]
      trivial
    · cases hh
  · simp only [storageKeys, hr.others.1, hr.others.2, List.mem_map, List.mem_eraseDups,
      List.reduceOption_mem_iff, List.mem_cons, List.not_mem_nil, reduceCtorEq, or_self,
      or_false] at hh
    obtain ⟨k, hk, rfl⟩ := hh
    exact hk.imp (fun hk => hr.raw k hk.symm) fun hk => hr.mezzanine k hk.symm

theorem DeleteFailedVideo.keyed_next {v : VideoId} {r : Video} {failures todo : List StorageHandle}
    (h : ∀ x ∈ todo, x.Keyed v) : (Proc.deleteFailed v (next r failures todo)).Keyed := by
  cases todo with
  | nil => by_cases hf : failures = [] <;> simp [next, hf, Proc.Keyed]
  | cons => exact h

theorem DeleteFailedVideo.step_keyed {v : VideoId} {pc pc' : Pc}
    (hrows : ∀ v r, w.videos.row v = some r → r.Keyed v) (hk : (Proc.deleteFailed v pc).Keyed)
    (h : step S pid v w a pc = some (.deleteFailed v pc', f)) :
    (Proc.deleteFailed v pc').Keyed := by
  cases pc with
  | lockVideo =>
    simp only [step, Table.locate_eq_some] at h
    obtain ⟨o, ho, he⟩ := h
    cases ho with
    | miss => cases he
    | hit hr =>
      dsimp only at he
      split at he
      · cases he
        split
        · split
          · exact keyed_next (keyed_storageHandles (hrows v _ hr))
          · trivial
        · trivial
      · cases he
  | cleanStorage video handle rest failures =>
    simp only [step, Option.some.injEq, Prod.mk.injEq, Proc.deleteFailed.injEq, true_and] at h
    rw [← h.1]
    exact keyed_next fun x hx => hk x (List.mem_cons_of_mem _ hx)
  | markFailed | sumReserved | release =>
    simp only [step] at h
    grind [Proc.Keyed]

/-- A turn leaves the keys a process holds those of its videos. -/
theorem Proc.Keyed.step (hk : p.Keyed) (hrows : ∀ v r, w.videos.row v = some r → r.Keyed v)
    (h : p.step S pid a w = some (p', f)) : p'.Keyed := by
  by_cases ha : ∃ message, a = .error message
  · obtain ⟨message, rfl⟩ := ha
    obtain ⟨hq, -⟩ := Proc.step_error.mp h
    cases p with
    | transcode e pc =>
      cases hq
      rcases ExecuteTranscode.onError_eq e message pc with ⟨err, he⟩ | ⟨err, he⟩ <;> rw [he] <;>
        trivial
    | _ => cases hq <;> trivial
  · rw [Proc.step_of_not_error (fun m hm => ha ⟨m, hm⟩)] at h
    cases p with
    | transcode e pc =>
      rcases ExecuteTranscode.step_next h with rfl | ⟨pc', rfl⟩ | ⟨err, rfl⟩
      · trivial
      · exact ExecuteTranscode.step_keyed hk h
      · trivial
    | cvStage e pc =>
      rcases ExecuteCvStage.step_next h with rfl | ⟨pc', rfl⟩ | ⟨err, rfl⟩ <;> trivial
    | onFailure e err failVideo pc =>
      rcases TerminalFailure.step_next h with rfl | ⟨pc', rfl⟩ <;> trivial
    | abandoned pc =>
      obtain ⟨pc', rfl⟩ := turn_next h
      rcases CleanupAbandonedUploads.step_batch h with ⟨ids, hb⟩ | hb
      · exact fun x hx => Table.keyed_rows hrows x (hb ▸ hx)
      · exact fun x hx => hk x (hb hx)
    | rawDeletes pass pc =>
      obtain ⟨pc', rfl⟩ := turn_next h
      rcases RawDeletes.step_batch h with ⟨ids, hb⟩ | hb
      · exact fun x hx => Table.keyed_rows hrows x (hb ▸ hx)
      · exact fun x hx => hk x (hb hx)
    | deleteFailed v pc =>
      rcases turn_next h with rfl | ⟨pc', rfl⟩
      · trivial
      · exact DeleteFailedVideo.step_keyed hrows hk h
    | worker =>
      obtain ⟨m, -, rfl⟩ := turn_next h
      rcases m.start_eq with he | he <;> rw [he] <;> trivial
    | done => cases h
    | _ =>
      have := turn_next h
      grind [Proc.Keyed]

/-- All storage keys are those of their videos. -/
structure State.Keyed (c : State) : Prop where
  rows : ∀ v r, c.world.videos.row v = some r → r.Keyed v
  procs : ∀ i, (c.procs i).Keyed

theorem Proc.IsFresh.keyed (h : p.IsFresh) : p.Keyed := by
  cases p with
  | transcode | cvStage | onFailure => exact h.elim
  | abandoned pc =>
    cases pc <;> first | exact h.elim | simp [Proc.Keyed, CleanupAbandonedUploads.batch]
  | rawDeletes _ pc => cases pc <;> first | exact h.elim | simp [Proc.Keyed, RawDeletes.batch]
  | deleteFailed _ pc => cases pc <;> first | exact h.elim | trivial
  | _ => trivial

/-- **In every run, all storage keys are those of their videos.** -/
theorem keyed_of_reach {ok : State → Pid → Answer → Prop} {c : State}
    (h : (system S).Reach Deployed ok c) : c.Keyed := by
  refine invariant_of_reach (Q := State.Keyed) ?_ ?_ h
  · rintro c ⟨⟨accounts, links, hw⟩, hf⟩
    refine ⟨fun v r hr => ?_, fun i => (hf i).keyed⟩
    rw [hw] at hr
    cases hr
  · intro c i a p f hc hk _ hs
    refine ⟨fun v => ?_, fun j => ?_⟩
    · exact (Proc.videoMove ((sound_of_reach hc).holds i) hs v).keyed (hk.procs i) (hk.rows v)
    · by_cases hj : j = i
      · subst hj
        simpa [State.after] using (hk.procs j).step hk.rows hs
      · simpa [State.after, Function.update_of_ne hj] using hk.procs j

/-! ### Outputs -/

/-- What a turn of `p` can make of the object at the key of the output of video `v`. -/
inductive OutputMove (p : Proc) (a : Answer) (v : VideoId) :
    Option StoredObject → Option StoredObject → Prop
  | keep {o} : OutputMove p a v o o
  | upload {e video verification sha256 size o} :
    p = .transcode e (.uploadOutput video verification sha256 size) → e.job.videoId = v →
    a ≠ .timer → a.applied →
    OutputMove p a v o (some ⟨size, sha256, none, some sha256⟩)
  | deleteOutput {e artifact o} :
    p = .transcode e (.deleteOutput artifact) → e.job.videoId = v → a.applied →
    OutputMove p a v o none
  | deleteVideo {r handle rest failures o} :
    p = .deleteFailed v (.cleanStorage r handle rest failures) → OutputMove p a v o none

/-- The object that an effect puts or deletes. -/
def Effect.key : Effect → Option StorageKey
  | .putObject k _ | .deleteObject k | .completeMultipart _ k _ => some k
  | _ => none

theorem objects_apply {k : StorageKey} (h : f.key ≠ some k) :
    (w.apply pid f).objects k = w.objects k := by
  cases f with
  | putObject k' o | deleteObject k' | completeMultipart _ k' o =>
    have hk : k ≠ k' := fun he => h (he ▸ rfl)
    simp [World.apply, World.setObject, World.setMultipart, hk]
  | _ => rfl

theorem ExecuteTranscode.step_key {e : Execution} {pc : Pc} {k : StorageKey}
    (h : step S pid e w a pc = some (p', f)) (hf : f.key = some k) :
    (∃ video verification sha256 size, pc = .uploadOutput video verification sha256 size ∧
      a ≠ .timer ∧ a.applied ∧
      f = .putObject (storageKeyForMezzanine e.job.videoId) ⟨size, sha256, none, some sha256⟩) ∨
    ∃ artifact, pc = .deleteOutput artifact ∧ a.applied ∧
      f = .deleteObject artifact.mezzanineKey := by
  cases pc <;> simp only [step, raise, escape, heartbeat, updateJob_eq_some, updateVideo_eq_some,
    lockAndSetJob_eq_some, Table.locate_eq_some] at h
  all_goals grind [updateJob_eq_some, Effect.key]

theorem ExecuteCvStage.step_key {e : Execution} {pc : Pc}
    (h : step S pid e w a pc = some (p', f)) : f.key = none := by
  cases pc <;> simp only [step, escape, updateJob_eq_some] at h
  all_goals grind [Table.locate_eq_some, Effect.key]

theorem TerminalFailure.step_key {e : Execution} {err : TaskError} {failVideo : Bool} {pc : Pc}
    (h : TerminalFailure.step pid e err failVideo w pc = some (p', f)) : f.key = none := by
  cases pc <;> simp only [step, lockAndSetJob_eq_some] at h
  all_goals grind [updateVideo_eq_some, Effect.key]

theorem storageKeyForMezzanine_ne_raw (v u : VideoId) :
    storageKeyForMezzanine v ≠ storageKeyForVideo u := by
  intro h
  cases h

/-- A turn of a pass or a request touches raw objects only, unless it deletes the video. -/
theorem Proc.turn_key (hh : p.Holds S pid w) (hk : p.Keyed)
    (hrows : ∀ v r, w.videos.row v = some r → r.Keyed v) (h : p.turn S pid a w = some (p', f))
    {v : VideoId} (hf : f.key = some (storageKeyForMezzanine v)) :
    (∃ e pc, p = .transcode e pc) ∨
      ∃ r handle rest failures, p = .deleteFailed v (.cleanStorage r handle rest failures) ∧
        f = .deleteObject (storageKeyForMezzanine v) := by
  have raw {u : VideoId} {r : Video} (hr : r.Keyed u) :
      r.storageKeyRaw ≠ some (storageKeyForMezzanine v) := fun he =>
    storageKeyForMezzanine_ne_raw v u (hr.raw _ he)
  cases p with
  | transcode e pc => exact .inl ⟨e, pc, rfl⟩
  | cvStage => cases (ExecuteCvStage.step_key h).symm.trans hf
  | onFailure => cases (TerminalFailure.step_key h).symm.trans hf
  | deleteFailed u pc =>
    cases pc with
    | cleanStorage r handle rest failures =>
      obtain ⟨-, rfl⟩ : _ ∧ _ = f := by simpa [turn, DeleteFailedVideo.step] using h
      have hkey := hk handle (List.mem_cons_self ..)
      cases handle with
      | multipart id => split at hf <;> cases hf
      | object key =>
        split at hf
        · cases hf
          rcases hkey with hkey | hkey <;> cases hkey
          exact .inr ⟨_, _, _, _, rfl, by simp_all [DeleteFailedVideo.remove]⟩
        · cases hf
    | lockVideo | markFailed | sumReserved | release =>
      simp only [turn, DeleteFailedVideo.step, Table.locate_eq_some] at h
      grind [Effect.key]
  | abandoned pc =>
    have hb := hk
    cases pc <;> simp only [turn, CleanupAbandonedUploads.step, Table.locate_eq_some] at h
    case cleanStorage x rest turns =>
      have := raw (hb x (List.mem_cons_self ..))
      grind [Effect.key]
    all_goals grind [Effect.key]
  | rawDeletes pass pc =>
    have hb := hk
    cases pc <;> simp only [turn, RawDeletes.step, updateVideo_eq_some] at h
    case deleteObject x rest now deleted =>
      have := raw (hb x (List.mem_cons_self ..))
      grind [Effect.key]
    all_goals grind [Effect.key]
  | complete req pc =>
    cases pc <;> simp only [turn, CompleteUpload.step, Table.locate_eq_some] at h
    case completeMultipart r id o =>
      have := raw (hrows _ _ hh.1.2)
      grind [Effect.key]
    case deleteRawObject r =>
      have := raw (hrows _ _ hh.1.2)
      grind [Effect.key]
    all_goals grind [Effect.key]
  | cancelUpload u pc =>
    cases pc <;> simp only [turn, CancelUpload.step, Table.locate_eq_some] at h
    case cleanStorage r =>
      have := raw (hrows _ _ hh.1.2)
      grind [Effect.key]
    all_goals grind [Effect.key]
  | client u o =>
    simp only [turn] at h
    grind [Effect.key, storageKeyForMezzanine, storageKeyForVideo]
  | worker =>
    simp only [turn] at h
    grind [Effect.key]
  | dispatch pc =>
    cases pc <;> simp only [turn, DispatchPendingJobs.step, Table.locate_eq_some] at h <;>
      grind [Effect.key]
  | recover pc =>
    cases pc <;> simp only [turn, RecoverStaleJobs.step, updateVideo_eq_some,
      lockAndSetJob_eq_some] at h <;> grind [Effect.key]
  | initiate req pc =>
    cases pc <;> simp only [turn, InitiateUpload.step, InitiateUpload.deny] at h <;>
      grind [Effect.key]
  | cancelProcessing v u pc =>
    cases pc <;> simp only [turn, CancelProcessing.step, Table.locate_eq_some] at h <;>
      grind [Effect.key]
  | requeueProcessing v pc =>
    cases pc <;> simp only [turn, RequeueProcessing.step, Table.locate_eq_some] at h <;>
      grind [Effect.key]
  | clock =>
    simp only [turn] at h
    grind [Effect.key]
  | done => cases h

/-- **What a turn does to the output of a video.** -/
theorem Proc.outputMove (hh : p.Holds S pid w) (hk : p.Keyed)
    (hrows : ∀ v r, w.videos.row v = some r → r.Keyed v) (h : p.step S pid a w = some (p', f))
    (v : VideoId) :
    OutputMove p a v (w.objects (storageKeyForMezzanine v))
      ((w.apply pid f).objects (storageKeyForMezzanine v)) := by
  by_cases hf : f.key = some (storageKeyForMezzanine v)
  · have ha : ∀ message, a ≠ .error message := by
      rintro message rfl
      obtain ⟨-, rfl⟩ := Proc.step_error.mp h
      cases hf
    rw [Proc.step_of_not_error ha] at h
    rcases turn_key hh hk hrows h hf with ⟨e, pc, rfl⟩ | ⟨r, handle, rest, failures, rfl, rfl⟩
    · rcases ExecuteTranscode.step_key h hf with
        ⟨video, verification, sha256, size, rfl, ht, happ, rfl⟩ | ⟨artifact, rfl, happ, rfl⟩
      · cases hf
        simpa [World.apply, World.setObject] using .upload rfl rfl ht happ
      · have hkey : artifact.mezzanineKey = storageKeyForMezzanine e.job.videoId := hk
        rw [hkey] at hf ⊢
        cases hf
        simpa [World.apply, World.setObject] using .deleteOutput rfl rfl happ
    · simpa [World.apply, World.setObject] using .deleteVideo rfl
  · rw [objects_apply hf]
    exact .keep

end NextBallUp
