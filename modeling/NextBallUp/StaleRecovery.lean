import NextBallUp.Moves

/-!
# Stale recovery

`recover_stale_jobs` selects the RUNNING jobs whose heartbeat is too old, locks them, and then
fails one after the other, each in a transaction of its own. The first commit gives all the locks
back, and what is executed for the other jobs asks for no heartbeat and accepts PENDING jobs. So
the pass is precise only as long as nobody else writes the jobs that it has still to treat.

## Main definitions

* `RecoverTurn.IsPrecise`: a turn of the loop moved a RUNNING job with a stale heartbeat to FAILED
* `LeavesRecovered`: the condition on a turn of another session

## Main results

* `isPrecise_of_reach`: **in every run of turns that satisfy the condition, all turns of all passes
  are precise, and a pass audits only jobs of its turns**
* `exists_not_isPrecise`: a job is failed after it has sent a heartbeat
-/

namespace NextBallUp

variable {S : Settings} {w w' : World} {pid : Pid} {a : Answer} {p p' : Proc} {f : Effect}

namespace RecoverStaleJobs

/-- The jobs that the pass has still to treat. -/
def batch : Pc → List (JobId × ProcessingJob)
  | .failJob job rest _ _ => job :: rest
  | .setFailed _ _ _ rest _ => rest
  | .select | .finished _ => []

/-- The turns of the loop so far. -/
def turns : Pc → List RecoverTurn
  | .failJob _ _ _ turns | .setFailed _ _ _ _ turns | .finished turns => turns
  | .select => []

end RecoverStaleJobs

/-- The turn moved the job to FAILED, and at that moment the job was RUNNING with a heartbeat older
than the threshold. -/
def RecoverTurn.IsPrecise (S : Settings) (t : RecoverTurn) : Prop :=
  ∃ r, t.found = some r ∧ r.status = .running ∧ RecoverStaleJobs.isStale S t.time r

/-- The columns that make a job one for the recovery. -/
def ProcessingJob.liveness (r : ProcessingJob) : ProcessingJobStatus × Option Time :=
  (r.status, r.heartbeatAt)

/-- The condition on a turn: it changes neither status nor heartbeat of a job that a recovery pass
of another session has still to treat. -/
def LeavesRecovered (S : Settings) (c : State) (i : Pid) (a : Answer) : Prop :=
  ∀ j pc, j ≠ i → c.procs j = .recover pc → ∀ x ∈ RecoverStaleJobs.batch pc,
    ∀ p f, (c.procs i).step S i a c.world = some (p, f) →
      ((c.world.apply i f).jobs.row x.1).map ProcessingJob.liveness =
        (c.world.jobs.row x.1).map ProcessingJob.liveness

/-! ### Stale jobs -/

/-- The job is RUNNING with a stale heartbeat. -/
def World.IsStale (S : Settings) (w : World) (j : JobId) : Prop :=
  ∃ r, w.jobs.row j = some r ∧ r.status = .running ∧ RecoverStaleJobs.isStale S w.now r

theorem RecoverStaleJobs.isStale_of_le {now now' : Time} {r r' : ProcessingJob}
    (h : isStale S now r) (hr : r'.heartbeatAt = r.heartbeatAt) (hle : now ≤ now') :
    isStale S now' r' := by
  simp only [isStale, Option.any_eq_true, decide_eq_true_eq] at h ⊢
  obtain ⟨t, ht, hlt⟩ := h
  exact ⟨t, hr.trans ht, Nat.lt_of_lt_of_le hlt hle⟩

/-- A stale job stays so as long as nobody changes it. -/
theorem World.IsStale.of_liveness {j : JobId} (h : w.IsStale S j)
    (hj : (w'.jobs.row j).map ProcessingJob.liveness = (w.jobs.row j).map ProcessingJob.liveness)
    (hle : w.now ≤ w'.now) : w'.IsStale S j := by
  obtain ⟨r, hr, hs, hst⟩ := h
  rw [hr, Option.map_some, Option.map_eq_some_iff] at hj
  obtain ⟨r', hr', hl⟩ := hj
  simp only [ProcessingJob.liveness, Prod.mk.injEq] at hl
  exact ⟨r', hr', hl.1.trans hs, RecoverStaleJobs.isStale_of_le hst hl.2 hle⟩

theorem World.IsStale.of_row {j : JobId} (h : w.IsStale S j)
    (hj : w'.jobs.row j = w.jobs.row j) (hle : w.now ≤ w'.now) : w'.IsStale S j :=
  h.of_liveness (by rw [hj]) hle

/-- What is known of a pass: the jobs that it has still to treat are distinct and stale, and all
its turns so far are precise. -/
def RecoverStaleJobs.Precise (S : Settings) (w : World) : RecoverStaleJobs.Pc → Prop
  | .select => True
  | .failJob job rest _ turns =>
    ((job :: rest).map Prod.fst).Nodup ∧ (∀ x ∈ job :: rest, w.IsStale S x.1) ∧
      ∀ t ∈ turns, t.IsPrecise S
  | .setFailed job failed time rest turns =>
    ((job :: rest).map Prod.fst).Nodup ∧ (∀ x ∈ rest, w.IsStale S x.1) ∧
      (∃ x, failed = some x ∧ x.1.status = .running ∧ isStale S time x.1) ∧
      ∀ t ∈ turns, t.IsPrecise S
  | .finished turns => ∀ t ∈ turns, t.IsPrecise S

namespace RecoverStaleJobs

theorem Precise.turns {pc : Pc} (h : Precise S w pc) : ∀ t ∈ turns pc, t.IsPrecise S := by
  cases pc with
  | select => simp [RecoverStaleJobs.turns]
  | failJob => exact h.2.2
  | setFailed => exact h.2.2.2
  | finished => exact h

theorem precise_loop {locked : Bool} {turns : List RecoverTurn}
    {todo : List (JobId × ProcessingJob)} (hn : (todo.map Prod.fst).Nodup)
    (hs : ∀ x ∈ todo, w.IsStale S x.1) (ht : ∀ t ∈ turns, t.IsPrecise S) :
    Precise S w (loop locked turns todo) := by
  cases todo with
  | nil => exact ht
  | cons x rest => exact ⟨hn, hs, ht⟩

/-- The turns of other sessions leave a pass precise. -/
theorem Precise.other {pc : Pc} (h : Precise S w pc)
    (hb : ∀ x ∈ batch pc, w.IsStale S x.1 → w'.IsStale S x.1) : Precise S w' pc := by
  cases pc with
  | select => trivial
  | failJob => exact ⟨h.1, fun x hx => hb x hx (h.2.1 x hx), h.2.2⟩
  | setFailed => exact ⟨h.1, fun x hx => hb x hx (h.2.1 x hx), h.2.2⟩
  | finished => exact h

theorem step_precise {pc pc' : Pc} (h : Precise S w pc)
    (hs : step S pid w a pc = some (.recover pc', f)) : Precise S (w.apply pid f) pc' := by
  cases pc with
  | select =>
    simp only [step] at hs
    split at hs
    · next ids =>
      split at hs
      · next hq =>
        cases hs
        have hall : ∀ j ∈ ids, w.IsStale S j := fun j hj => by
          have hj := isQueryResult_all hq j hj
          simp only [Bool.decide_and, Bool.decide_eq_true, Bool.and_eq_true, decide_eq_true_eq,
            Option.any_eq_true] at hj
          obtain ⟨-, r, hr, hs⟩ := hj
          exact ⟨r, hr, hs⟩
        refine precise_loop (Table.nodup_rows (isQueryResult_nodup hq)) (fun x hx => ?_) (by simp)
        exact hall x.1 (Table.mem_rows.mp hx).1
      · cases hs
    · cases hs
  | failJob job rest locked turns =>
    obtain ⟨hn, hst, ht⟩ := h
    obtain ⟨r, hr, hrun, hstale⟩ := hst job (List.mem_cons_self ..)
    simp only [step, lockAndSetJob_eq_some] at hs
    obtain ⟨o, ho, he⟩ := hs
    cases ho with
    | miss hm =>
      have hc := hm r hr
      simp [fail, failJob, hrun] at hc
    | hit hr' =>
      obtain rfl := Option.some.inj (hr.symm.trans hr')
      cases he
      exact ⟨hn, fun x hx => (hst x (List.mem_cons_of_mem _ hx)).of_row rfl (Nat.le_refl _),
        ⟨_, rfl, hrun, hstale⟩, ht⟩
  | setFailed job failed time rest turns =>
    obtain ⟨hn, hst, ⟨x, rfl, hrun, hstale⟩, ht⟩ := h
    simp only [step, updateVideo_eq_some] at hs
    obtain ⟨o, -, he⟩ := hs
    cases he
    rw [List.map_cons, List.nodup_cons] at hn
    refine precise_loop hn.2 (fun y hy => (hst y hy).of_row ?_ (Nat.le_refl _)) ?_
    · have hne : y.1 ≠ job.1 := fun he => hn.1 (he ▸ List.mem_map_of_mem hy)
      simp [World.apply, Table.row_put, hne]
    · intro t hmem
      rcases List.mem_append.mp hmem with hmem | hmem
      · exact ht t hmem
      · rw [List.mem_singleton.mp hmem]
        exact ⟨x.1, rfl, hrun, hstale⟩
  | finished => cases hs

end RecoverStaleJobs

/-! ### Runs -/

theorem RecoverStaleJobs.turns_loop (locked : Bool) (done : List RecoverTurn)
    (todo : List (JobId × ProcessingJob)) : turns (loop locked done todo) = done := by
  cases todo <;> rfl

/-- What a turn adds to the turns of the loop, and what it then audits. -/
theorem RecoverStaleJobs.step_turns {pc : Pc} (h : step S pid w a pc = some (p', f)) :
    ∃ pc', p' = .recover pc' ∧ turns pc ⊆ turns pc' ∧
      ∀ x ∈ f.auditLogs, ∃ t ∈ turns pc', x.2 = .job t.job := by
  cases pc with
  | select =>
    simp only [step] at h
    split at h
    · split at h
      · cases h
        exact ⟨_, rfl, List.nil_subset _, fun _ h => by cases h⟩
      · cases h
    · cases h
  | failJob job rest locked done =>
    simp only [step, lockAndSetJob_eq_some] at h
    obtain ⟨o, -, he⟩ := h
    cases he
    exact ⟨_, rfl, List.Subset.refl _, fun _ h => by cases h⟩
  | setFailed job failed time rest done =>
    simp only [step, updateVideo_eq_some] at h
    obtain ⟨o, -, he⟩ := h
    cases he
    refine ⟨_, rfl, ?_, ?_⟩ <;> rw [turns_loop]
    · exact List.subset_append_left _ _
    · intro x hx
      rw [List.mem_singleton.mp hx]
      exact ⟨_, List.mem_append_right _ (List.mem_singleton_self _), rfl⟩
  | finished => cases h

/-- What is known of all passes and all audit rows. -/
structure State.Recovers (S : Settings) (c : State) : Prop where
  precise : ∀ i pc, c.procs i = .recover pc → RecoverStaleJobs.Precise S c.world pc
  audits : ∀ log ∈ c.world.auditLogs, log.action = .videoProcessingRecoveredStale →
    ∃ pc, c.procs log.session = .recover pc ∧
      ∃ t ∈ RecoverStaleJobs.turns pc, log.resource = .job t.job

theorem recovers_of_reach {c : State} (h : (system S).Reach Deployed (LeavesRecovered S) c) :
    c.Recovers S := by
  refine invariant_of_reach (Q := State.Recovers S) ?_ ?_ h
  · rintro c ⟨⟨accounts, links, hw⟩, hf⟩
    refine ⟨fun i pc hp => ?_, fun log hlog => ?_⟩
    · have := hf i
      rw [hp] at this
      cases pc <;> trivial
    · rw [hw] at hlog
      cases hlog
  · intro c i a p f hreach hc hok hs
    have hframe := apply_frame (Proc.step_sound ((sound_of_reach hreach).holds i) p f hs).1
    refine ⟨fun j pc hp => ?_, fun log hlog hact => ?_⟩
    · by_cases hj : j = i
      · subst hj
        simp only [State.after, Function.update_self] at hp ⊢
        subst hp
        obtain ⟨pc₀, hp₀, hs₀⟩ := Proc.step_origin hs
        exact RecoverStaleJobs.step_precise (hc.precise j pc₀ hp₀) hs₀
      · simp only [State.after, Function.update_of_ne hj] at hp ⊢
        refine (hc.precise j pc hp).other fun x hx hst => ?_
        exact hst.of_liveness (hok j pc hj hp x hx p f hs) hframe.now
    · -- A pass goes on, and keeps its turns.
      have goesOn {pc} (hp : c.procs i = .recover pc) :
          ∃ pc', p = .recover pc' ∧ RecoverStaleJobs.turns pc ⊆ RecoverStaleJobs.turns pc' ∧
            ∀ x ∈ f.auditLogs, ∃ t ∈ RecoverStaleJobs.turns pc', x.2 = .job t.job := by
        rw [hp] at hs
        by_cases ha : ∃ message, a = .error message
        · obtain ⟨message, rfl⟩ := ha
          cases (Proc.step_error.mp hs).1
        · rw [Proc.step_of_not_error (fun m hm => ha ⟨m, hm⟩)] at hs
          exact RecoverStaleJobs.step_turns hs
      simp only [State.after, auditLogs_apply, List.mem_append, List.mem_map] at hlog ⊢
      rcases hlog with hlog | ⟨x, hx, rfl⟩
      · obtain ⟨pc, hp, t, ht, hr⟩ := hc.audits log hlog hact
        by_cases hj : log.session = i
        · subst hj
          obtain ⟨pc', rfl, hsub, -⟩ := goesOn hp
          exact ⟨pc', by simp, t, hsub ht, hr⟩
        · exact ⟨pc, by simpa [Function.update_of_ne hj] using hp, t, ht, hr⟩
      · have hmem := Proc.step_audits hs hx
        obtain ⟨pc, hp⟩ : ∃ pc, c.procs i = .recover pc := by
          have hact : x.1 = .videoProcessingRecoveredStale := hact
          rw [hact] at hmem
          cases hp : c.procs i <;> simp [hp, Proc.auditActions] at hmem ⊢
        obtain ⟨pc', rfl, -, haud⟩ := goesOn hp
        obtain ⟨t, ht, hr⟩ := haud x hx
        exact ⟨pc', by simp, t, ht, hr⟩

/-- **Stale recovery is precise in every run whose turns satisfy the condition**: every turn of a
pass, and so every job that it returns, moved a RUNNING job with a stale heartbeat to FAILED, and
the jobs that a pass audits as recovered are among them. -/
theorem isPrecise_of_reach {c : State} (h : (system S).Reach Deployed (LeavesRecovered S) c)
    {i : Pid} {pc : RecoverStaleJobs.Pc} (hp : c.procs i = .recover pc) :
    (∀ t ∈ RecoverStaleJobs.turns pc, t.IsPrecise S) ∧
      ∀ log ∈ c.world.auditLogs, log.session = i →
        log.action = .videoProcessingRecoveredStale →
        ∃ t ∈ RecoverStaleJobs.turns pc, log.resource = .job t.job := by
  have hc := recovers_of_reach h
  refine ⟨(hc.precise i pc hp).turns, fun log hlog hi hact => ?_⟩
  obtain ⟨pc', hp', ht⟩ := hc.audits log hlog hact
  subst hi
  cases hp.symm.trans hp'
  exact ht

/-! ### Given runs -/

/-- Of the first `n` processes, no other than `i` is a pass that has still jobs to treat. -/
def State.recoversAlone (n : ℕ) (c : State) (i : Pid) (_ : Answer) : Bool :=
  (List.range n).all fun j => j = i ||
    match c.procs j with
    | .recover pc => (RecoverStaleJobs.batch pc).isEmpty
    | _ => true

theorem leavesRecovered_of_recoversAlone {n : ℕ} {c : State} {i : Pid} (hb : c.Bounded n)
    (h : c.recoversAlone n i a = true) : LeavesRecovered S c i a := by
  intro j pc hj hp x hx
  simp only [State.recoversAlone, List.all_eq_true, List.mem_range] at h
  by_cases hn : j < n
  · have hempty : RecoverStaleJobs.batch pc = [] := by simpa [hj, hp] using h j hn
    rw [hempty] at hx
    cases hx
  · rw [hb j (Nat.le_of_not_lt hn)] at hp
    cases hp

/-- The turns of the pass that process `i` runs. -/
def State.recoverTurns (c : State) (i : Pid) : List RecoverTurn :=
  match c.procs i with
  | .recover pc => RecoverStaleJobs.turns pc
  | _ => []

theorem State.exists_of_recoverTurns {c : State} {i : Pid} {t : RecoverTurn}
    (h : t ∈ c.recoverTurns i) :
    ∃ pc, c.procs i = .recover pc ∧ t ∈ RecoverStaleJobs.turns pc := by
  unfold recoverTurns at h
  split at h
  · next pc hp => exact ⟨pc, hp, h⟩
  · cases h

/-- A worker that has stopped after its claim, and a pass that recovers the job. -/
theorem exists_isPrecise :
    ∃ c pc, (system .default).Reach Deployed (LeavesRecovered .default) c ∧
      c.procs 6 = .recover pc ∧
      ∃ t ∈ RecoverStaleJobs.turns pc, t.job = transcodeJob 0 ∧ t.IsPrecise .default := by
  obtain ⟨c, hc, ht⟩ := exists_reach_of_check (S := .default) (State.recoversAlone 7)
    (fun c i a => leavesRecovered_of_recoversAlone)
    (deployed_oneUpload [.clock, .dispatch .select, .worker, .recover .select]
      (by simp [Proc.IsFresh]))
    (bounded_oneUpload [.clock, .dispatch .select, .worker, .recover .select])
    (deliveryTurns ++ turns 5 3 ++ [(3, .seconds 400), (6, .jobs [transcodeJob 0])] ++
      turns 6 2)
    (fun c => (c.recoverTurns 6).any fun t => t.job = transcodeJob 0) (by decide +kernel)
  obtain ⟨t, ht, hj⟩ := List.any_eq_true.mp ht
  obtain ⟨pc, hp, ht⟩ := State.exists_of_recoverTurns ht
  exact ⟨c, pc, hc, hp, t, ht, by simpa using hj, (isPrecise_of_reach hc hp).1 t ht⟩

/-- Two stale jobs. The worker of the second one sends a heartbeat after the pass has failed the
first, and the pass fails the second nevertheless. -/
theorem exists_not_isPrecise :
    ∃ c pc, (system .default).Reach Deployed Machine.Always c ∧ c.procs 10 = .recover pc ∧
      ∃ t ∈ RecoverStaleJobs.turns pc, ¬ t.IsPrecise .default := by
  obtain ⟨c, hc, ht⟩ := Machine.exists_reach_of_exec (system .default) Machine.Always
    (deployed_oneUpload [.initiate ⟨1, 10, none, []⟩ .lockAccount, .client 1 ⟨10, 8, none, none⟩,
      .complete ⟨1, none, none⟩ .lockVideo, .clock, .dispatch .select, .worker, .worker,
      .recover .select] (by simp [Proc.IsFresh]))
    (uploadTurns ++ turns 3 6 ++ turns 4 1 ++ turns 5 3 ++ [(6, .seconds 5),
      (7, .jobs [transcodeJob 0, transcodeJob 1])] ++ turns 7 4 ++ [(8, .deliver 0 false)] ++
      turns 8 3 ++ [(9, .deliver 0 false)] ++ turns 9 3 ++ [(6, .seconds 400),
      (10, .jobs [transcodeJob 0, transcodeJob 1])] ++ turns 10 2 ++ turns 9 1 ++ turns 10 2)
    (fun c : State => (c.recoverTurns 10).any fun t =>
      t.found.any fun r => !RecoverStaleJobs.isStale .default t.time r) (by decide +kernel)
  obtain ⟨t, ht, hf⟩ := List.any_eq_true.mp ht
  obtain ⟨pc, hp, ht⟩ := State.exists_of_recoverTurns ht
  refine ⟨c, pc, hc, hp, t, ht, ?_⟩
  rintro ⟨r, hr, -, hs⟩
  simp [hr, hs] at hf

end NextBallUp
