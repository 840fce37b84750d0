import NextBallUp.Moves

/-!
# Abandoned uploads

`cleanup_abandoned_uploads` reads the expired pending uploads once, without locks, and then treats
one after the other: it removes what has been uploaded, moves the video to FAILED if it is still
PENDING_UPLOAD, and whether it was or not, releases the quota reservation, audits the upload as
abandoned and returns the video. So the pass is precise only as long as no completed, cancelled or
deleted upload is still waiting in its batch.

## Main definitions

* `AbandonedTurn.IsPrecise`: a turn of the loop moved a pending upload to FAILED
* `LeavesAbandoned`: the condition on a turn of another session

## Main results

* `abandoned_isPrecise_of_reach`: **in every run of turns that satisfy the condition, all turns of
  all passes are precise, and a pass audits only videos of its turns**
* `exists_abandoned_not_isPrecise`: the raw object of a queued video is deleted
-/

namespace NextBallUp

variable {S : Settings} {w w' : World} {pid : Pid} {a : Answer} {p p' : Proc} {f : Effect}

namespace CleanupAbandonedUploads

/-- The videos for which the pass has still to execute its `UPDATE`. -/
def waiting : Pc → List (VideoId × Video)
  | .cleanStorage video rest _ | .setFailed video _ rest _ => video :: rest
  | .sumReserved _ _ _ rest _ | .release _ _ _ _ _ rest _ => rest
  | .select | .finished _ => []

/-- The turns of the loop so far. -/
def turns : Pc → List AbandonedTurn
  | .cleanStorage _ _ turns | .setFailed _ _ _ turns | .sumReserved _ _ _ _ turns
  | .release _ _ _ _ _ _ turns | .finished turns => turns
  | .select => []

end CleanupAbandonedUploads

/-- The turn moved the video from PENDING_UPLOAD to FAILED. -/
def AbandonedTurn.IsPrecise (t : AbandonedTurn) : Prop :=
  ∃ r, t.moved = some r ∧ r.status = .pendingUpload

/-- The condition on a turn: it does not change the status of a video that is still waiting in the
pass of another session. -/
def LeavesAbandoned (S : Settings) (c : State) (i : Pid) (a : Answer) : Prop :=
  ∀ j pc, j ≠ i → c.procs j = .abandoned pc → ∀ x ∈ CleanupAbandonedUploads.waiting pc,
    ∀ p f, (c.procs i).step S i a c.world = some (p, f) →
      ((c.world.apply i f).videos.row x.1).map Video.status =
        (c.world.videos.row x.1).map Video.status

/-! ### Pending uploads -/

/-- The video is PENDING_UPLOAD. -/
def World.IsPendingUpload (w : World) (v : VideoId) : Prop :=
  (w.videos.row v).map Video.status = some .pendingUpload

/-- What is known of a pass: the videos that wait in it are distinct and PENDING_UPLOAD, and all
its turns so far are precise. -/
def CleanupAbandonedUploads.Precise (w : World) : CleanupAbandonedUploads.Pc → Prop
  | .select => True
  | .cleanStorage video rest turns | .setFailed video _ rest turns =>
    ((video :: rest).map Prod.fst).Nodup ∧ (∀ x ∈ video :: rest, w.IsPendingUpload x.1) ∧
      ∀ t ∈ turns, t.IsPrecise
  | .sumReserved video moved _ rest turns | .release video moved _ _ _ rest turns =>
    ((video :: rest).map Prod.fst).Nodup ∧ (∀ x ∈ rest, w.IsPendingUpload x.1) ∧
      (∃ r, moved = some r ∧ r.status = .pendingUpload) ∧ ∀ t ∈ turns, t.IsPrecise
  | .finished turns => ∀ t ∈ turns, t.IsPrecise

namespace CleanupAbandonedUploads

theorem Precise.turns {pc : Pc} (h : Precise w pc) : ∀ t ∈ turns pc, t.IsPrecise := by
  cases pc with
  | select => simp [CleanupAbandonedUploads.turns]
  | cleanStorage | setFailed => exact h.2.2
  | sumReserved | release => exact h.2.2.2
  | finished => exact h

theorem precise_loop {turns : List AbandonedTurn} {todo : List (VideoId × Video)}
    (hn : (todo.map Prod.fst).Nodup) (hs : ∀ x ∈ todo, w.IsPendingUpload x.1)
    (ht : ∀ t ∈ turns, t.IsPrecise) : Precise w (loop turns todo) := by
  cases todo with
  | nil => exact ht
  | cons x rest => exact ⟨hn, hs, ht⟩

/-- A pass stays precise while the waiting videos stay PENDING_UPLOAD. -/
theorem Precise.of_waiting {pc : Pc} (h : Precise w pc)
    (hb : ∀ x ∈ waiting pc, w.IsPendingUpload x.1 → w'.IsPendingUpload x.1) : Precise w' pc := by
  cases pc with
  | select => trivial
  | cleanStorage | setFailed => exact ⟨h.1, fun x hx => hb x hx (h.2.1 x hx), h.2.2⟩
  | sumReserved | release => exact ⟨h.1, fun x hx => hb x hx (h.2.1 x hx), h.2.2⟩
  | finished => exact h

theorem step_cleanStorage {video : VideoId × Video} {rest : List (VideoId × Video)}
    {turns : List AbandonedTurn}
    (h : step S pid w a (.cleanStorage video rest turns) = some (p', f)) :
    ∃ cleaned, p' = .abandoned (.setFailed video cleaned rest turns) ∧ ∀ tx, f ≠ .commit tx := by
  simp only [step] at h
  grind

theorem step_precise {pc pc' : Pc} (h : Precise w pc)
    (hs : step S pid w a pc = some (.abandoned pc', f)) : Precise (w.apply pid f) pc' := by
  cases pc with
  | select =>
    simp only [step] at hs
    split at hs
    · next ids =>
      split at hs
      · next hq =>
        cases hs
        refine precise_loop (Table.nodup_rows (isQueryResult_nodup hq)) (fun x hx => ?_) (by simp)
        obtain ⟨hx, hr⟩ := Table.mem_rows.mp hx
        have hq := isQueryResult_all hq x.1 hx
        simp only [hr, Option.any_some, isAbandoned, Bool.decide_and, Bool.decide_eq_true,
          Bool.and_eq_true, decide_eq_true_eq] at hq
        simp [World.IsPendingUpload, World.apply, hr, hq.1]
      · cases hs
    · cases hs
  | cleanStorage video rest turns =>
    obtain ⟨cleaned, he, hf⟩ := step_cleanStorage hs
    cases he
    refine Precise.of_waiting (w := w) ?_ fun x _ hx => ?_
    · exact h
    rwa [World.IsPendingUpload, (rows_of_not_commit hf).1]
  | setFailed video cleaned rest turns =>
    obtain ⟨hn, hp, ht⟩ := h
    have hv := hp video (List.mem_cons_self ..)
    obtain ⟨r, hr, hst⟩ := Option.map_eq_some_iff.mp hv
    simp only [step, Table.locate_eq_some] at hs
    obtain ⟨o, ho, he⟩ := hs
    cases ho with
    | miss hm => exact absurd (hm r hr) (by simp [failUpload, hst])
    | hit hr' =>
      obtain rfl := Option.some.inj (hr.symm.trans hr')
      cases he
      exact ⟨hn, fun x hx => hp x (List.mem_cons_of_mem _ hx), ⟨r, rfl, hst⟩, ht⟩
  | sumReserved video moved cleaned rest turns =>
    cases hs
    exact h
  | release video moved cleaned account net rest turns =>
    obtain ⟨hn, hp, ⟨r, rfl, hst⟩, ht⟩ := h
    cases hs
    rw [List.map_cons, List.nodup_cons] at hn
    refine precise_loop hn.2 (fun y hy => ?_) ?_
    · have hne : y.1 ≠ video.1 := fun he => hn.1 (he ▸ List.mem_map_of_mem hy)
      simpa [World.IsPendingUpload, World.apply, Table.row_put, hne] using hp y hy
    · intro t hmem
      rcases List.mem_append.mp hmem with hmem | hmem
      · exact ht t hmem
      · rw [List.mem_singleton.mp hmem]
        exact ⟨r, rfl, hst⟩
  | finished => cases hs

end CleanupAbandonedUploads

/-! ### Runs -/

theorem CleanupAbandonedUploads.turns_loop (done : List AbandonedTurn)
    (todo : List (VideoId × Video)) : turns (loop done todo) = done := by
  cases todo <;> rfl

/-- What a turn adds to the turns of the loop, and what it then audits. -/
theorem CleanupAbandonedUploads.step_turns {pc : Pc} (h : step S pid w a pc = some (p', f)) :
    ∃ pc', p' = .abandoned pc' ∧ turns pc ⊆ turns pc' ∧
      ∀ x ∈ f.auditLogs, ∃ t ∈ turns pc', x.2 = .video t.video := by
  cases pc with
  | select =>
    simp only [step] at h
    split at h
    · split at h
      · cases h
        exact ⟨_, rfl, List.nil_subset _, fun _ h => by cases h⟩
      · cases h
    · cases h
  | cleanStorage video rest done =>
    obtain ⟨cleaned, rfl, hf⟩ := step_cleanStorage h
    refine ⟨_, rfl, List.Subset.refl _, fun x hx => ?_⟩
    cases f with
    | commit tx => exact absurd rfl (hf tx)
    | _ => cases hx
  | setFailed video cleaned rest done =>
    simp only [step, Table.locate_eq_some] at h
    obtain ⟨o, ho, he⟩ := h
    cases ho <;> cases he <;> exact ⟨_, rfl, List.Subset.refl _, fun _ h => by cases h⟩
  | sumReserved =>
    cases h
    exact ⟨_, rfl, List.Subset.refl _, fun _ h => by cases h⟩
  | release video moved cleaned account net rest done =>
    cases h
    refine ⟨_, rfl, ?_, ?_⟩ <;> rw [turns_loop]
    · exact List.subset_append_left _ _
    · intro x hx
      rw [List.mem_singleton.mp hx]
      exact ⟨_, List.mem_append_right _ (List.mem_singleton_self _), rfl⟩
  | finished => cases h

/-- What is known of all passes and their audit rows. -/
structure State.Abandons (c : State) : Prop where
  precise : ∀ i pc, c.procs i = .abandoned pc → CleanupAbandonedUploads.Precise c.world pc
  audits : ∀ i pc, c.procs i = .abandoned pc → ∀ log ∈ c.world.auditLogs, log.session = i →
    ∃ t ∈ CleanupAbandonedUploads.turns pc, log.resource = .video t.video

/-- A session that is a pass has written only what this pass has written. -/
theorem abandons_of_reach {c : State} (h : (system S).Reach Deployed (LeavesAbandoned S) c) :
    c.Abandons := by
  refine invariant_of_reach (Q := State.Abandons) ?_ ?_ h
  · rintro c ⟨⟨accounts, links, hw⟩, hf⟩
    refine ⟨fun i pc hp => ?_, fun i pc hp log hlog => ?_⟩
    · have := hf i
      rw [hp] at this
      cases pc <;> trivial
    · rw [hw] at hlog
      cases hlog
  · intro c i a p f hreach hc hok hs
    refine ⟨fun j pc hp => ?_, fun j pc hp log hlog hj => ?_⟩
    · by_cases hj : j = i
      · subst hj
        simp only [State.after, Function.update_self] at hp ⊢
        subst hp
        obtain ⟨pc₀, hp₀, hs₀⟩ := Proc.step_origin hs
        exact CleanupAbandonedUploads.step_precise (hc.precise j pc₀ hp₀) hs₀
      · simp only [State.after, Function.update_of_ne hj] at hp ⊢
        refine (hc.precise j pc hp).of_waiting fun x hx hst => ?_
        exact (hok j pc hj hp x hx p f hs).trans hst
    · simp only [State.after, auditLogs_apply, List.mem_append, List.mem_map] at hlog
      by_cases hji : j = i
      · subst hji
        simp only [State.after, Function.update_self] at hp
        subst hp
        obtain ⟨pc₀, hp₀, hs₀⟩ := Proc.step_origin hs
        obtain ⟨pc', he, hsub, haud⟩ := CleanupAbandonedUploads.step_turns hs₀
        cases he
        rcases hlog with hlog | ⟨x, hx, rfl⟩
        · obtain ⟨t, ht, hr⟩ := hc.audits j pc₀ hp₀ log hlog hj
          exact ⟨t, hsub ht, hr⟩
        · exact haud x hx
      · simp only [State.after, Function.update_of_ne hji] at hp
        rcases hlog with hlog | ⟨x, hx, rfl⟩
        · exact hc.audits j pc hp log hlog hj
        · exact absurd hj.symm hji

/-- **The cleanup of abandoned uploads is precise in every run whose turns satisfy the condition**:
every turn of a pass, whatever it removed and released, and so every video that the pass returns,
moved a pending upload to FAILED, and the videos that a pass audits are among them. -/
theorem abandoned_isPrecise_of_reach {c : State}
    (h : (system S).Reach Deployed (LeavesAbandoned S) c) {i : Pid}
    {pc : CleanupAbandonedUploads.Pc} (hp : c.procs i = .abandoned pc) :
    (∀ t ∈ CleanupAbandonedUploads.turns pc, t.IsPrecise) ∧
      ∀ log ∈ c.world.auditLogs, log.session = i →
        ∃ t ∈ CleanupAbandonedUploads.turns pc, log.resource = .video t.video :=
  ⟨((abandons_of_reach h).precise i pc hp).turns, (abandons_of_reach h).audits i pc hp⟩

/-! ### Given runs -/

/-- Of the first `n` processes, no other than `i` is a pass in which videos wait. -/
def State.abandonsAlone (n : ℕ) (c : State) (i : Pid) (_ : Answer) : Bool :=
  (List.range n).all fun j => j = i ||
    match c.procs j with
    | .abandoned pc => (CleanupAbandonedUploads.waiting pc).isEmpty
    | _ => true

theorem leavesAbandoned_of_abandonsAlone {n : ℕ} {c : State} {i : Pid} (hb : c.Bounded n)
    (h : c.abandonsAlone n i a = true) : LeavesAbandoned S c i a := by
  intro j pc hj hp x hx
  simp only [State.abandonsAlone, List.all_eq_true, List.mem_range] at h
  by_cases hn : j < n
  · have hempty : CleanupAbandonedUploads.waiting pc = [] := by simpa [hj, hp] using h j hn
    rw [hempty] at hx
    cases hx
  · rw [hb j (Nat.le_of_not_lt hn)] at hp
    cases hp

/-- The turns of the pass that process `i` runs. -/
def State.abandonedTurns (c : State) (i : Pid) : List AbandonedTurn :=
  match c.procs i with
  | .abandoned pc => CleanupAbandonedUploads.turns pc
  | _ => []

theorem State.exists_of_abandonedTurns {c : State} {i : Pid} {t : AbandonedTurn}
    (h : t ∈ c.abandonedTurns i) :
    ∃ pc, c.procs i = .abandoned pc ∧ t ∈ CleanupAbandonedUploads.turns pc := by
  unfold abandonedTurns at h
  split at h
  · next pc hp => exact ⟨pc, hp, h⟩
  · cases h

/-- An upload that is never completed is cleaned up. -/
theorem exists_abandoned_isPrecise :
    ∃ c pc, (system .default).Reach Deployed (LeavesAbandoned .default) c ∧
      c.procs 4 = .abandoned pc ∧
      ∃ t ∈ CleanupAbandonedUploads.turns pc, t.video = 0 ∧ t.cleaned = true ∧ t.IsPrecise := by
  obtain ⟨c, hc, ht⟩ := exists_reach_of_check (S := .default) (State.abandonsAlone 5)
    (fun c i a => leavesAbandoned_of_abandonsAlone)
    (deployed_oneUpload [.clock, .abandoned .select] (by simp [Proc.IsFresh]))
    (bounded_oneUpload [.clock, .abandoned .select])
    (turns 0 6 ++ turns 1 1 ++ [(3, .seconds 4000), (4, .videos [0])] ++ turns 4 4)
    (fun c => (c.abandonedTurns 4).any fun t => t.video = 0 && t.cleaned) (by decide +kernel)
  obtain ⟨t, ht, hv⟩ := List.any_eq_true.mp ht
  obtain ⟨pc, hp, ht⟩ := State.exists_of_abandonedTurns ht
  simp only [Bool.and_eq_true, decide_eq_true_eq] at hv
  exact ⟨c, pc, hc, hp, t, ht, hv.1, hv.2, (abandoned_isPrecise_of_reach hc hp).1 t ht⟩

/-- An upload is completed after the pass has selected it. The pass deletes the raw object of the
queued video, releases its reservation and returns it. -/
theorem exists_abandoned_not_isPrecise :
    ∃ c pc, (system .default).Reach Deployed Machine.Always c ∧ c.procs 4 = .abandoned pc ∧
      ∃ t ∈ CleanupAbandonedUploads.turns pc,
        t.cleaned = true ∧ t.released = true ∧ ¬ t.IsPrecise := by
  obtain ⟨c, hc, ht⟩ := Machine.exists_reach_of_exec (system .default) Machine.Always
    (deployed_oneUpload [.clock, .abandoned .select] (by simp [Proc.IsFresh]))
    (turns 0 6 ++ turns 1 1 ++ [(3, .seconds 4000), (4, .videos [0])] ++ turns 2 3 ++ turns 4 4)
    (fun c : State => (c.abandonedTurns 4).any fun t =>
      t.cleaned && t.released && t.moved.isNone) (by decide +kernel)
  obtain ⟨t, ht, hv⟩ := List.any_eq_true.mp ht
  obtain ⟨pc, hp, ht⟩ := State.exists_of_abandonedTurns ht
  simp only [Bool.and_eq_true, Option.isNone_iff_eq_none] at hv
  refine ⟨c, pc, hc, hp, t, ht, hv.1.1, hv.1.2, ?_⟩
  rintro ⟨r, hr, -⟩
  cases hv.2.symm.trans hr

end NextBallUp
