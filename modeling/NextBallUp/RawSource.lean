import NextBallUp.Ledger

/-!
# The raw object of a video to be processed

Two passes delete raw objects. The one over expired objects selects only PROCESSED and FAILED
videos, "queued/processing videos may still need the source object". The one that retries deletes
selects by `raw_delete_requested_at` alone. A delete of the user that fails sets that column of a
PENDING_UPLOAD video too, and neither the completion of the upload nor a requeue resets it. And the
first commit of either pass gives back the locks of the videos that it has still to treat.

## Main definitions

* `Video.isSettled`: PROCESSED or FAILED
* `RawDeletes.pending`: the videos whose raw object a pass has still to delete
* `KeepsRawSources`: the condition on a turn

## Main results

* `isSettled_of_reach`: **in every run of turns that satisfy the condition, the passes delete raw
  objects of settled videos only**
* `exists_not_isSettled`: a pass deletes the source of a QUEUED video
-/

namespace NextBallUp

variable {S : Settings} {w w' : World} {pid : Pid} {a : Answer} {p p' : Proc} {f : Effect}

/-- Nothing is left to be done with the video. -/
def Video.isSettled (r : Video) : Bool := r.status = .processed ∨ r.status = .failed

theorem Video.isSettled_iff {r : Video} :
    r.isSettled ↔ r.status = .processed ∨ r.status = .failed := by
  simp [isSettled]

/-- The videos whose raw object the pass has still to delete. -/
def RawDeletes.pending : RawDeletes.Pc → List (VideoId × Video)
  | .request video rest _ _ | .deleteObject video rest _ _ => video :: rest
  | .markFailed _ rest _ _ | .markDeleted _ rest _ _ => rest
  | .select | .finished _ => []

/-- The condition on a turn: an upload is completed, and a video is requeued, only if no deletion of
its raw object has been requested; no video is requeued whose raw object a pass has still to
delete; and the pass that retries deletes finds no pending upload. -/
def KeepsRawSources (c : State) (i : Pid) (a : Answer) : Prop :=
  a.isError ∨ match c.procs i with
  | .complete _ (.queueTranscode video) => video.rawDeleteRequestedAt = none
  | .requeueProcessing v (.setPending video _ _) =>
    video.rawDeleteRequestedAt = none ∧
      ∀ j pass pc, c.procs j = .rawDeletes pass pc → ∀ x ∈ RawDeletes.pending pc, x.1 ≠ v
  | .rawDeletes .retry .select =>
    ∀ ids, a = .videos ids → ∀ v ∈ ids, ∀ r, c.world.videos.row v = some r →
      r.status ≠ .pendingUpload
  | _ => True

/-- A deletion of the raw object has been requested only of settled videos and pending uploads. -/
def Video.Requestable (r : Video) : Prop :=
  r.rawDeleteRequestedAt ≠ none → r.isSettled ∨ r.status = .pendingUpload

/-! ### Rows -/

/-- Only a requeue makes a settled video one that is still to be processed. -/
theorem VideoMove.isSettled {v : VideoId} {r r' : Video}
    (h : VideoMove S w p v (some r) (some r')) (hr : r.isSettled) :
    r'.isSettled ∨ ∃ loaded row, p = .requeueProcessing v (.setPending r loaded row) := by
  have absurd {s : VideoStatus} (hs : r.status = s) (hp : s ≠ .processed) (hf : s ≠ .failed) :
      False := by
    rcases Video.isSettled_iff.mp hr with h | h
    · exact hp (hs.symm.trans h)
    · exact hf (hs.symm.trans h)
  cases h with
  | keep => exact .inl hr
  | setProcessing _ _ hs => rcases hs with hs | hs <;> exact (absurd hs (by simp) (by simp)).elim
  | materialize _ _ hs => exact (absurd hs (by simp) (by simp)).elim
  | setQueued _ _ hs => rcases hs with hs | hs <;> exact (absurd hs (by simp) (by simp)).elim
  | complete _ _ hs => exact (absurd hs (by simp) (by simp)).elim
  | raw _ _ _ hu => exact .inl (by simpa [Video.isSettled, hu.status] using hr)
  | markFailed => exact .inl hr
  | requeueProcessing hp => exact .inr ⟨_, _, hp⟩
  | _ => exact .inl rfl

/-- Unless a pass requests a deletion itself, a request stays with a settled video or a pending
upload. -/
theorem VideoMove.requestable {c : State} {i : Pid} {v : VideoId} {o : Option Video} {r' : Video}
    (hok : KeepsRawSources c i a) (ha : a.isError = false)
    (h : VideoMove S w (c.procs i) v o (some r')) (ho : ∀ r, o = some r → r.Requestable)
    (hpass : ∀ pass pc, c.procs i = .rawDeletes pass pc → ∀ x ∈ RawDeletes.pending pc, x.1 = v →
      ∀ r, o = some r → r.isSettled) : r'.Requestable := by
  replace hok := hok.resolve_left (by simp [ha])
  -- A video that is to be processed has no request.
  have absurd {r : Video} (hr : o = some r) (hs : r.status = .queued ∨ r.status = .processing)
      (hreq : r.rawDeleteRequestedAt ≠ none) : False := by
    have := ho r hr hreq
    rw [Video.isSettled_iff] at this
    rcases hs with hs | hs <;> simp [hs] at this
  intro hreq
  cases h with
  | keep => exact ho _ rfl hreq
  | insert => exact (hreq rfl).elim
  | setProcessing _ _ hs => exact (absurd rfl hs hreq).elim
  | materialize _ _ hs => exact (absurd rfl (.inr hs) hreq).elim
  | setQueued _ _ hs => exact (absurd rfl hs.symm hreq).elim
  | @raw pass pc x rest r _ hp hb hv hu =>
    rw [Video.isSettled_iff, hu.status, ← Video.isSettled_iff]
    rcases hu.rawDeleteRequestedAt with he | ⟨_, _, _, _, rfl⟩
    · exact ho _ rfl (he ▸ hreq)
    · exact .inl (hpass pass _ hp x (by cases hb; exact List.mem_cons_self ..) hv r rfl)
  | complete hp =>
    rw [hp] at hok
    exact (hreq hok).elim
  | markFailed _ hs => exact hs.imp_left fun hs => Video.isSettled_iff.mpr (.inr hs)
  | requeueProcessing hp =>
    rw [hp] at hok
    exact (hreq hok.1).elim
  | _ => exact .inl rfl

/-! ### Passes -/

theorem RawDeletes.pending_loop (pass : RawPass) (now : Time) (deleted : List VideoId)
    (todo : List (VideoId × Video)) : pending (loop pass now deleted todo) = todo := by
  cases todo <;> cases pass <;> rfl

theorem RawDeletes.pending_subset_batch (pc : Pc) : pending pc ⊆ batch pc := by
  cases pc with
  | markFailed | markDeleted => exact List.subset_cons_self ..
  | _ => exact List.Subset.refl _

/-- What a pass has still to delete is what its query returned, or part of what it had before. -/
theorem RawDeletes.step_pending {pass : RawPass} {pc pc' : Pc}
    (h : step S pass pid w a pc = some (.rawDeletes pass pc', f)) :
    (pc = .select ∧ ∃ ids, a = .videos ids ∧ f = .lock [] ids [] ∧
      (∀ v ∈ ids, (w.videos.row v).any (isSelected pass w)) ∧ pending pc' = w.videos.rows ids) ∨
    pending pc' ⊆ pending pc := by
  cases pc with
  | select =>
    simp only [step] at h
    split at h
    · split at h
      · next ids =>
        split at h
        · next hq =>
          cases h
          refine .inl ⟨rfl, ids, rfl, rfl, fun v hv => ?_, pending_loop ..⟩
          have := isQueryResult_all hq v hv
          simp only [decide_eq_true_eq] at this
          exact this.2
        · cases h
      · cases h
    · cases h
      exact .inr (List.nil_subset _)
  | request | deleteObject | markFailed | markDeleted | finished =>
    right
    simp only [step, updateVideo_eq_some] at h
    grind [pending_loop, pending]

/-- A pass deletes the raw object of a video that is still pending. -/
theorem RawDeletes.step_deleteObject {pass : RawPass} {pc : Pc} {k : StorageKey}
    (h : step S pass pid w a pc = some (p', .deleteObject k)) :
    ∃ x ∈ pending pc, x.2.storageKeyRaw = some k := by
  cases pc with
  | deleteObject x rest now deleted =>
    obtain ⟨v, row⟩ := x
    refine ⟨(v, row), List.mem_cons_self .., ?_⟩
    simp only [step] at h
    grind
  | select | request | markFailed | markDeleted | finished =>
    simp only [step, updateVideo_eq_some] at h
    grind

/-! ### Runs -/

/-- Requests are left with settled videos and pending uploads only, and what a pass has still to
delete belongs to settled videos. -/
structure State.KeepsSources (c : State) : Prop where
  rows : ∀ v r, c.world.videos.row v = some r → r.Requestable
  passes : ∀ i pass pc, c.procs i = .rawDeletes pass pc → ∀ x ∈ RawDeletes.pending pc,
    ∀ r, c.world.videos.row x.1 = some r → r.isSettled

section Step

variable {c : State} {i : Pid}

/-- Under the condition the queries of both passes return settled videos only. -/
theorem isSettled_of_isSelected {pass : RawPass} {ids : List VideoId} {v : VideoId} {r : Video}
    (hok : KeepsRawSources c i (.videos ids)) (hp : c.procs i = .rawDeletes pass .select)
    (hv : v ∈ ids) (hr : c.world.videos.row v = some r) (hreq : r.Requestable)
    (hsel : RawDeletes.isSelected pass w r) : r.isSettled := by
  replace hok := hok.resolve_left (by simp [Answer.isError])
  rw [hp] at hok
  cases pass with
  | expired =>
    simp only [RawDeletes.isSelected, Bool.and_eq_true, Bool.or_eq_true, decide_eq_true_eq] at hsel
    exact Video.isSettled_iff.mpr hsel.2.2
  | retry =>
    simp only [RawDeletes.isSelected, Bool.and_eq_true, Option.isSome_iff_ne_none] at hsel
    exact (hreq hsel.2).resolve_right (hok ids rfl v hv r hr)

/-- No turn takes away the settled status of a video that a pass has still to treat. -/
theorem State.KeepsSources.isSettled_after (hc : c.KeepsSources) (hid : c.Identified)
    (hsound : c.Sound S) (hok : KeepsRawSources c i a) (ha : a.isError = false)
    (hs : (c.procs i).step S i a c.world = some (p, f)) {j : Pid} {pass : RawPass}
    {pc : RawDeletes.Pc} (hp : c.procs j = .rawDeletes pass pc) {x : VideoId × Video}
    (hx : x ∈ RawDeletes.pending pc) {r' : Video}
    (hr' : (c.world.apply i f).videos.row x.1 = some r') : r'.isSettled := by
  have hm := hr' ▸ Proc.videoMove (hsound.holds i) hs x.1
  cases hrow : c.world.videos.row x.1 with
  | none =>
    have hused : c.Used x.1 :=
      hid.batches j x (by rw [hp]; exact RawDeletes.pending_subset_batch pc hx)
    rw [hrow] at hm
    cases hm with
    | insert hi => exact (hused.free i (by rw [hi]; rfl)).elim
  | some r =>
    rw [hrow] at hm
    rcases hm.isSettled (hc.passes j pass pc hp x hx r hrow) with h | ⟨loaded, row, hi⟩
    · exact h
    · have hok := hok.resolve_left (by simp [ha])
      rw [hi] at hok
      exact (hok.2 j pass pc hp x hx rfl).elim

theorem State.KeepsSources.after (hc : c.KeepsSources) (hid : c.Identified)
    (hsound : c.Sound S) (hok : KeepsRawSources c i a) (ha : a.isError = false)
    (hs : (c.procs i).step S i a c.world = some (p, f)) : (c.after i p f).KeepsSources := by
  refine ⟨fun v r' hr' => ?_, fun j pass pc hp x hx r' hr' => ?_⟩
  · have hr' : (c.world.apply i f).videos.row v = some r' := hr'
    refine (hr' ▸ Proc.videoMove (hsound.holds i) hs v).requestable hok ha (hc.rows v) ?_
    rintro pass pc hp x hx rfl
    exact hc.passes i pass pc hp x hx
  · by_cases hj : j = i
    · subst hj
      rw [State.procs_after] at hp
      subst hp
      obtain ⟨pc₀, hp₀, hs₀⟩ := Proc.step_origin hs
      rcases RawDeletes.step_pending hs₀ with ⟨rfl, ids, rfl, rfl, hsel, hpend⟩ | hsub
      · rw [hpend, Table.mem_rows] at hx
        have hr' : c.world.videos.row x.1 = some r' := hr'
        have hsel := hsel x.1 hx.1
        rw [hr', Option.any_some] at hsel
        exact isSettled_of_isSelected hok hp₀ hx.1 hr' (hc.rows _ _ hr') hsel
      · exact hc.isSettled_after hid hsound hok ha hs hp₀ (hsub hx) hr'
    · rw [State.procs_after_of_ne _ _ _ _ hj] at hp
      exact hc.isSettled_after hid hsound hok ha hs hp hx hr'

theorem State.KeepsSources.of_error (hc : c.KeepsSources) {message : String}
    (hs : (c.procs i).step S i (.error message) c.world = some (p, f)) :
    (c.after i p f).KeepsSources := by
  obtain ⟨-, rfl⟩ := Proc.step_error.mp hs
  refine ⟨fun v r hr => hc.rows v r (by simpa [World.apply] using hr), ?_⟩
  intro j pass pc hp x hx r hr
  have hr : c.world.videos.row x.1 = some r := by simpa [World.apply] using hr
  by_cases hj : j = i
  · subst hj
    rw [State.procs_after] at hp
    subst hp
    obtain ⟨pc₀, hp₀, hs₀⟩ := Proc.step_origin hs
    rw [hp₀] at hs
    cases (Proc.step_error.mp hs).1
  · rw [State.procs_after_of_ne _ _ _ _ hj] at hp
    exact hc.passes j pass pc hp x hx r hr

end Step

theorem keepsSources_of_reach {c : State} (h : (system S).Reach Deployed KeepsRawSources c) :
    c.KeepsSources := by
  refine invariant_of_reach (Q := State.KeepsSources) ?_ ?_ h
  · rintro c ⟨⟨accounts, links, hw⟩, hf⟩
    refine ⟨fun v r hr => ?_, fun i pass pc hp x hx => ?_⟩
    · rw [hw] at hr
      cases hr
    · have hfresh := hp ▸ hf i
      cases pc <;> first | exact hfresh.elim | cases hx
  · intro c i a p f hreach hc hok hs
    by_cases ha : a.isError = true
    · obtain ⟨message, rfl⟩ := Answer.isError_iff.mp ha
      exact hc.of_error hs
    · rw [Bool.not_eq_true] at ha
      exact hc.after (identified_of_reach hreach) (sound_of_reach hreach) hok ha hs

/-- **In every run whose turns satisfy the condition, the passes delete raw objects of settled
videos only.** -/
theorem isSettled_of_reach {c : State} (h : (system S).Reach Deployed KeepsRawSources c) {i : Pid}
    {pass : RawPass} {pc : RawDeletes.Pc} (hp : c.procs i = .rawDeletes pass pc) {k : StorageKey}
    (hs : (c.procs i).step S i a c.world = some (p, .deleteObject k)) :
    ∃ v, k = storageKeyForVideo v ∧ ∀ r, c.world.videos.row v = some r → r.isSettled := by
  obtain ⟨x, hx, hk⟩ : ∃ x ∈ RawDeletes.pending pc, x.2.storageKeyRaw = some k := by
    rw [hp] at hs
    by_cases ha : a.isError = true
    · obtain ⟨message, rfl⟩ := Answer.isError_iff.mp ha
      cases (Proc.step_error.mp hs).2
    · rw [Proc.step_of_not_error fun m hm => ha (by rw [hm]; rfl)] at hs
      exact RawDeletes.step_deleteObject hs
  have hkeyed : x.2.Keyed x.1 := by
    have := (keyed_of_reach h).procs i
    rw [hp] at this
    exact this x (RawDeletes.pending_subset_batch pc hx)
  exact ⟨x.1, hkeyed.raw k hk, (keepsSources_of_reach h).passes i pass pc hp x hx⟩

/-! ### Given runs -/

/-- Process `i` is about to delete the raw object of a video whose status is as given. -/
def State.deletesSource (c : State) (i : Pid) (status : VideoStatus) : Bool :=
  match c.procs i with
  | .rawDeletes _ (.deleteObject x _ _ _) =>
    x.2.storageKeyRaw.isSome && (c.world.videos.row x.1).any fun r =>
      r.status = status ∧ r.storageKeyRaw = x.2.storageKeyRaw
  | _ => false

theorem State.exists_of_deletesSource {c : State} {i : Pid} {status : VideoStatus}
    (h : c.deletesSource i status = true) :
    ∃ pass pc p k, c.procs i = .rawDeletes pass pc ∧
      (c.procs i).step S i .ok c.world = some (p, .deleteObject k) ∧
      ∃ v r, c.world.videos.row v = some r ∧ r.status = status ∧ r.storageKeyRaw = some k := by
  unfold deletesSource at h
  split at h
  · next pass x rest now deleted hp =>
    simp only [Bool.and_eq_true, Option.isSome_iff_exists, Option.any_eq_true,
      decide_eq_true_eq] at h
    obtain ⟨⟨k, hk⟩, r, hr, hstatus, hkey⟩ := h
    refine ⟨pass, _, .rawDeletes pass (.markDeleted x rest now deleted), k, hp, ?_, x.1, r, hr,
      hstatus, hkey.trans hk⟩
    obtain ⟨v, row⟩ := x
    have hk : row.storageKeyRaw = some k := hk
    simp [hp, Proc.step, Proc.turn, RawDeletes.step, hk, Answer.applied, Answer.returns]
  · cases h

/-- A check that implies the condition where nothing is requeued. -/
def State.requestsSettled (c : State) (i : Pid) (_ : Answer) : Bool :=
  match c.procs i with
  | .complete _ (.queueTranscode video) => video.rawDeleteRequestedAt = none
  | .requeueProcessing _ (.setPending ..) | .rawDeletes .retry .select => false
  | _ => true

theorem keepsRawSources_of_requestsSettled {c : State} {i : Pid}
    (h : c.requestsSettled i a = true) : KeepsRawSources c i a := by
  unfold State.requestsSettled at h
  refine .inr ?_
  split at h
  · next hp => simpa [hp] using h
  · cases h
  · cases h
  · trivial

/-- The raw object of a PROCESSED video has expired, and a pass is about to delete it. -/
theorem exists_isSettled :
    ∃ c p k, (system .default).Reach Deployed KeepsRawSources c ∧
      (c.procs 6).step .default 6 .ok c.world = some (p, .deleteObject k) ∧
      ∃ v, k = storageKeyForVideo v ∧ ∀ r, c.world.videos.row v = some r → r.isSettled := by
  obtain ⟨c, hc, hd⟩ := exists_reach_of_check (S := .default) State.requestsSettled
    (fun _ _ _ _ => keepsRawSources_of_requestsSettled)
    (deployed_oneUpload [.clock, .dispatch .select, .worker, .rawDeletes .expired .select]
      (by simp [Proc.IsFresh]))
    (bounded_oneUpload [.clock, .dispatch .select, .worker, .rawDeletes .expired .select])
    (deliveryTurns ++ turns 5 8 ++ [(5, .output 9 4)] ++ turns 5 8 ++
      [(3, .seconds 31536000), (6, .videos [0])] ++ turns 6 1)
    (fun c => c.deletesSource 6 .processed) (by decide +kernel)
  obtain ⟨pass, pc, p, k, hp, hs, -⟩ := State.exists_of_deletesSource (S := .default) hd
  exact ⟨c, p, k, hc, hs, isSettled_of_reach hc hp hs⟩

/-- The user tries to delete a pending upload, and the storage fails. The upload is completed, and
the pass that retries deletes is about to delete the source of a QUEUED video. -/
theorem exists_not_isSettled :
    ∃ c pass pc p k, (system .default).Reach Deployed Machine.Always c ∧
      c.procs 4 = .rawDeletes pass pc ∧
      (c.procs 4).step .default 4 .ok c.world = some (p, .deleteObject k) ∧
      ∃ v r, k = storageKeyForVideo v ∧ c.world.videos.row v = some r ∧ ¬ r.isSettled := by
  obtain ⟨c, hc, hd⟩ := Machine.exists_reach_of_exec (system .default) Machine.Always
    (deployed_oneUpload [.deleteFailed 0 .lockVideo, .rawDeletes .retry .select]
      (by simp [Proc.IsFresh]))
    (turns 0 6 ++ turns 1 1 ++ [(3, .ok), (3, .fault), (3, .ok)] ++ turns 2 3 ++
      [(4, .videos [0])])
    (fun c : State => c.deletesSource 4 .queued) (by decide +kernel)
  obtain ⟨pass, pc, p, k, hp, hs, v, r, hr, hq, hk⟩ :=
    State.exists_of_deletesSource (S := .default) hd
  refine ⟨c, pass, pc, p, k, hc, hp, hs, v, r, ((keyed_of_reach hc).rows v r hr).raw k hk, hr, ?_⟩
  simp [Video.isSettled, hq]

end NextBallUp
