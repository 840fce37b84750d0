import NextBallUp.Preview.Messages

/-!
# Owners of a demo preview

`demo_preview_task_id` names the task that the preview belongs to. Cancelling clears it, and the
next request replaces it. An execution does not look at it: it writes back the row object that it
has loaded before a run that may take minutes, with the id of its own task.

## Main definitions

* `State.WritesOwned`: an execution changes the preview only while the row names its task
* `KeepsOwner`: the condition on a turn

## Main results

* `writesOwned_of_reach`: **in every run of turns that satisfy the condition, executions and hooks
  change the preview only while the row names their task**
* `exists_not_writesOwned`: a preview that is completed after it has been cancelled
-/

namespace NextBallUp.Preview

variable {S : Settings} {i : Pid} {w : World} {a : Answer} {p p' : Proc} {f : Effect}
  {m : Message} {t : TaskId} {c : State}

/-- Between the two the preview, or the job for its candidate tags, has changed. -/
def World.Differs (w w' : World) : Prop :=
  w'.video.demoPreviewStatus ≠ w.video.demoPreviewStatus ∨
    w'.video.demoPreviewStorageKey ≠ w.video.demoPreviewStorageKey ∨
    w'.video.demoPreviewErrorMessage ≠ w.video.demoPreviewErrorMessage ∨
    w'.eventsJob ≠ w.eventsJob

/-- If process `i` executes a task, or runs its hook, this turn changes the preview only if the row
names the task. -/
def State.WritesOwned (S : Settings) (c : State) (i : Pid) (a : Answer) : Prop :=
  ∀ p' f m pc, (c.procs i).step S i c.world a = some (p', f) → c.procs i = .execute m pc →
    c.world.Differs (c.world.apply i f) → c.world.video.demoPreviewTaskId = some m.task

/-- The condition on a turn: a request that records another task, and a cancellation, commit only
if the task that the row names is not outstanding; an execution commits a write only if the request
that sent its message has been committed. -/
def KeepsOwner (c : State) (i : Pid) (a : Answer) : Prop :=
  a.fails = false →
    match c.procs i with
    | .create (.recording _ task .commit) =>
      ∀ t ∈ c.world.video.demoPreviewTaskId, t ≠ task → t ∉ c.world.outstanding
    | .cancel (.commit _) => ∀ t ∈ c.world.video.demoPreviewTaskId, t ∉ c.world.outstanding
    | .execute m (.commit ..) => m.task ∈ c.world.requested
    | _ => True

instance : Decidable (KeepsOwner c i a) := by
  unfold KeepsOwner
  split <;> infer_instance

theorem World.not_differs (h : ∀ tx, f ≠ .commit tx) : ¬ w.Differs (w.apply i f) := by
  cases f with
  | commit tx => exact (h tx rfl).elim
  | _ => simp [Differs, World.apply, World.ack]

/-- The row names every outstanding task whose request has been committed. -/
def World.IsOwned (w : World) : Prop :=
  ∀ t ∈ w.outstanding, t ∈ w.requested → w.video.demoPreviewTaskId = some t

/-- An execution whose task the row names leaves the id as it is. -/
theorem demoPreviewTaskId_write {video stored : Video} {task : TaskId} (now : Time)
    (write : RunDemoPreview.Write) (h : stored.demoPreviewTaskId = some task) :
    (video.flush (write.assign now task video) stored).demoPreviewTaskId = some task := by
  rcases flushColumn_eq_or video.demoPreviewTaskId (write.assign now task video).demoPreviewTaskId
    stored.demoPreviewTaskId with he | he
  · exact he.trans h
  · exact he.trans (write.demoPreviewTaskId_assign now)

/-- An execution that commits a write finds its task in the row. -/
theorem State.owner_of_commit {write : RunDemoPreview.Write} {video : Video} {hook : Bool} {tx : Tx}
    (hc : c.Sound) (ho : c.world.IsOwned) (hok : KeepsOwner c i a)
    (hs : (c.procs i).step S i c.world a = some (p', .commit tx))
    (hp : c.procs i = .execute m (.commit write video hook)) :
    c.world.video.demoPreviewTaskId = some m.task := by
  have hu : (i, m) ∈ c.world.unacked := by
    have := hc.holds i
    rwa [hp] at this
  refine ho m.task (World.mem_outstanding_of_unacked hu) ?_
  have := hok (Proc.not_fails_of_commit hs)
  rwa [hp] at this

/-- **A turn that satisfies the condition.** -/
theorem State.isOwned_after (hc : c.Sound) (ho : c.world.IsOwned) (hok : KeepsOwner c i a)
    (hs : (c.procs i).step S i c.world a = some (p', f)) : (c.world.apply i f).IsOwned := by
  have hm := Proc.step_moves hs
  have hp := hc.holds i
  intro t ht hr
  have ht' := hm.outstanding hp ht
  generalize hq : c.procs i = q at hm hp
  cases hm with
  | silent hf =>
    rw [World.video_apply hf.ne_commit]
    rw [World.requested_apply hf.ne_commit] at hr
    refine ho t (ht'.resolve_right ?_) hr
    rintro ⟨rfl, -⟩
    exact hf
  | send pc =>
    -- The new task has not been recorded yet.
    refine ho t (ht'.resolve_right ?_) hr
    rintro ⟨-, rfl⟩
    exact Nat.lt_irrefl _ (hc.lawful.requested _ hr)
  | request video task =>
    have ht' := ht'.resolve_right fun h => by cases h.1
    have hok' := hok (Proc.not_fails_of_commit hs)
    rw [hq] at hok'
    rw [World.video_apply_commit]
    refine (demoPreviewTaskId_request hp.1 _ _).trans ?_
    rw [World.requested_apply_commit] at hr
    rcases List.mem_cons.mp hr with rfl | hr
    · rfl
    · by_contra hne
      exact hok' t (ho t ht' hr) (fun he => hne (congrArg some he.symm)) ht'
  | cancel video =>
    have ht' := ht'.resolve_right fun h => by cases h.1
    have hok' := hok (Proc.not_fails_of_commit hs)
    rw [hq] at hok'
    rw [World.requested_apply_commit] at hr
    exact (hok' t (ho t ht' hr) ht').elim
  | write m write video hook =>
    have ht' := ht'.resolve_right fun h => by cases h.1
    have hm := State.owner_of_commit hc ho hok hs hq
    rw [World.requested_apply_commit] at hr
    rw [World.video_apply_commit]
    refine (demoPreviewTaskId_write _ write hm).trans ?_
    exact hm.symm.trans (ho t ht' hr)
  | _ => exact ho t (ht'.resolve_right fun h => by cases h.1) hr

/-- What the invariant says of every reachable state. -/
theorem isOwned_of_reach (h : (system S).Reach State.Deployed KeepsOwner c) :
    c.Sound ∧ c.world.IsOwned := by
  refine h.invariant (Q := fun c : State => c.Sound ∧ c.world.IsOwned) ?_ ?_
  · intro c hc
    refine ⟨hc.sound, fun t ht => ?_⟩
    rw [hc.outstanding] at ht
    cases ht
  · rintro c c' i a ⟨hc, ho⟩ hok hn
    obtain ⟨p, f, hs, rfl⟩ := next_eq_some.mp hn
    exact ⟨hc.after hs, State.isOwned_after hc ho hok hs⟩

/-- **Executions write only what is theirs**, in runs of turns that satisfy the condition. -/
theorem writesOwned_of_reach (h : (system S).Reach State.Deployed KeepsOwner c)
    (hok : KeepsOwner c i a) : c.WritesOwned S i a := by
  obtain ⟨hc, ho⟩ := isOwned_of_reach h
  intro p' f m pc hs hp hd
  have hm := Proc.step_moves hs
  generalize hq : c.procs i = q at hm
  cases hm with
  | write m' write video hook =>
    rw [hp] at hq
    cases hq
    exact State.owner_of_commit hc ho hok hs hp
  | request | cancel =>
    rw [hp] at hq
    cases hq
  | silent hf => exact (World.not_differs hf.ne_commit hd).elim
  | _ => exact (World.not_differs (fun _ h => by cases h) hd).elim

/-! ### Two runs -/

/-- A request, a cancellation, a worker and the clock. -/
def onePreview : State where
  procs
    | 0 => .create .load
    | 1 => .idle
    | 2 => .cancel .load
    | 3 => .clock
    | _ => .done
  world := processedVideo

theorem deployed_onePreview : onePreview.Deployed := by
  refine deployed_processedVideo fun i => ?_
  split
  · rfl
  · trivial
  · rfl
  all_goals trivial

/-- A request in the storage-backed configuration: it loads the row, decides, sends and commits. -/
def requestTurns (i : Pid) : List (Pid × Answer) := List.replicate 4 (i, .ok)

/-- **A preview from its request to its end.** -/
theorem exists_writesOwned :
    ∃ c : State, c.WritesOwned .alpha 1 .ok ∧ ∃ c', (system .alpha).next c 1 .ok = some c' ∧
      c'.world.video.demoPreviewStatus = .completed ∧
      c'.world.eventsJob ≠ c.world.eventsJob := by
  obtain ⟨c, hc, hb⟩ := Machine.exists_reach_of_exec (system .alpha) KeepsOwner
    deployed_onePreview (requestTurns 0 ++ executeTurns 1 ++ completeTurns 1)
    (fun c => decide (KeepsOwner c 1 .ok) && ((system .alpha).next c 1 .ok).any fun c' =>
      c'.world.video.demoPreviewStatus = .completed ∧
        c'.world.eventsJob ≠ c.world.eventsJob) (by decide +kernel)
  obtain ⟨hok, hb⟩ := Bool.and_eq_true_iff.mp hb
  obtain ⟨c', hn, hb⟩ := (Option.any_eq_true _ _).mp hb
  exact ⟨c, writesOwned_of_reach hc (of_decide_eq_true hok), c', hn, of_decide_eq_true hb⟩

/-- In this turn an execution changes the status while the row does not name its task. -/
def State.writesUnowned (S : Settings) (c : State) (i : Pid) (a : Answer) : Bool :=
  match c.procs i with
  | .execute m _ => ((c.procs i).step S i c.world a).any fun t =>
      (c.world.apply i t.2).video.demoPreviewStatus ≠ c.world.video.demoPreviewStatus ∧
        c.world.video.demoPreviewTaskId ≠ some m.task
  | _ => false

theorem State.not_writesOwned (h : c.writesUnowned S i a = true) : ¬ c.WritesOwned S i a := by
  intro ho
  unfold writesUnowned at h
  split at h
  · next m pc hp =>
    obtain ⟨t, hs, h⟩ := (Option.any_eq_true _ _).mp h
    obtain ⟨hd, hn⟩ := of_decide_eq_true h
    exact hn (ho t.1 t.2 m pc hs hp (.inl hd))
  · cases h

/-- **A cancelled preview is completed.** The cancellation comes while the artifact is generated. -/
theorem exists_not_writesOwned :
    ∃ c : State, (system .alpha).Reach State.Deployed Machine.Always c ∧
      ¬ c.WritesOwned .alpha 1 .ok := by
  obtain ⟨c, hc, hb⟩ := Machine.exists_reach_of_exec (system .alpha) Machine.Always
    deployed_onePreview
    (requestTurns 0 ++ executeTurns 1 ++ [(2, .ok), (2, .ok)] ++ completeTurns 1)
    (fun c => State.writesUnowned .alpha c 1 .ok) (by decide +kernel)
  exact ⟨c, hc, State.not_writesOwned hb⟩

end NextBallUp.Preview
