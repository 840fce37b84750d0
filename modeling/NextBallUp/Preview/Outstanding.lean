import NextBallUp.Preview.Owners

/-!
# At most one demo preview

A request enqueues a task if it finds the row neither queued nor running. It reads the row without a
lock, and writes it only after the message has been sent. In the local configuration a lock file and
a state file stand between the two; in the storage-backed one, nothing does. An execution writes
that it is neither queued nor running any more before its message is acknowledged, and if it is
killed in between, the message comes back.

## Main definitions

* `State.EnqueuesAlone`: a request sends only if no message is outstanding, and its task is in the
  row when it ends
* `SendsRecorded`: the condition on a turn

## Main results

* `enqueuesAlone_of_reach`: **in every run of turns that satisfy the condition and without
  cancellations there is never more than one task outstanding**, in either configuration
* `exists_not_enqueuesAlone`: two requests at the same time
* `exists_not_enqueuesAlone_of_lost`: an execution that is killed after its last write
-/

namespace NextBallUp.Preview

variable {S : Settings} {i : Pid} {w : World} {a : Answer} {p p' : Proc} {f : Effect}
  {m : Message} {t : TaskId} {c : State}

/-- If a request sends a message in this turn, no message is outstanding; if a request that has sent
one ends, the row names its task. -/
def State.EnqueuesAlone (S : Settings) (c : State) (i : Pid) (a : Answer) : Prop :=
  ∀ p' f, (c.procs i).step S i c.world a = some (p', f) →
    (f = .send → c.world.outstanding = []) ∧
    ∀ video task pc, c.procs i = .create (.recording video task pc) → p' = .done →
      (c.world.apply i f).video.demoPreviewTaskId = some task

/-- The condition on a turn: a request sends its message only if the row is still neither queued nor
running, the request of every outstanding task has been committed, and no execution of one has
committed its last write; and the commit of a request that has sent its message does not raise. -/
def SendsRecorded (c : State) (i : Pid) (a : Answer) : Prop :=
  match c.procs i with
  | .create (.asking _ (.send _)) => c.world.video.demoPreviewStatus.isActive = false ∧
      ∀ t ∈ c.world.outstanding, t ∈ c.world.requested ∧ t ∉ c.world.ended
  | .create (.recording _ _ .commit) => a.fails = false
  | _ => True

/-- `SendsRecorded`, as it is evaluated. -/
def Proc.sendsRecorded (w : World) (a : Answer) : Proc → Bool
  | .create (.asking _ (.send _)) =>
    !w.video.demoPreviewStatus.isActive &&
      decide (∀ t ∈ w.outstanding, t ∈ w.requested ∧ t ∉ w.ended)
  | .create (.recording _ _ .commit) => !a.fails
  | _ => true

theorem sendsRecorded_iff : (c.procs i).sendsRecorded c.world a = true ↔ SendsRecorded c i a := by
  rw [SendsRecorded]
  generalize c.procs i = p
  rw [Proc.sendsRecorded.eq_def]
  split <;> simp only [Bool.and_eq_true, Bool.not_eq_eq_eq_not, Bool.not_true, decide_eq_true_eq]

instance : Decidable (SendsRecorded c i a) := decidable_of_iff _ sendsRecorded_iff

/-- Processes begin, and none of them is a cancellation. -/
structure State.DeployedWithoutCancel (c : State) : Prop where
  deployed : c.Deployed
  create : ∀ i pc, c.procs i ≠ .cancel pc

/-- One task is outstanding at most, and the row shows it from the commit of its request to the last
write of its execution. -/
structure State.Alone (c : State) : Prop where
  sound : c.Sound
  create : ∀ i pc, c.procs i ≠ .cancel pc
  length_le : c.world.outstanding.length ≤ 1
  active : ∀ t ∈ c.world.outstanding, t ∈ c.world.requested → t ∉ c.world.ended →
    c.world.video.demoPreviewStatus.isActive = true

theorem State.DeployedWithoutCancel.alone (h : c.DeployedWithoutCancel) : c.Alone where
  sound := h.deployed.sound
  create := h.create
  length_le := by rw [h.deployed.outstanding]; exact Nat.zero_le _
  active t ht := by
    rw [h.deployed.outstanding] at ht
    cases ht

/-- A request that may send its message is alone. -/
theorem State.Alone.outstanding_eq_nil {video : Video}
    {queued : Option (Option Time × DemoPreviewState)} (h : c.Alone) (hok : SendsRecorded c i a)
    (hp : c.procs i = .create (.asking video (.send queued))) : c.world.outstanding = [] := by
  rw [SendsRecorded, hp] at hok
  rw [List.eq_nil_iff_forall_not_mem]
  intro t ht
  obtain ⟨hr, he⟩ := hok.2 t ht
  have ha := h.active t ht hr he
  rw [hok.1] at ha
  cases ha

/-- What a turn does to the number of outstanding tasks. -/
theorem Move.length_outstanding (h : Move i w p p' f) (hp : p.Holds i w)
    (hl : w.outstanding.length ≤ 1) (hs : f = .send → w.outstanding = []) :
    (w.apply i f).outstanding.length ≤ 1 := by
  cases h with
  | silent hf => rwa [World.outstanding_apply_silent hf]
  | send => rw [World.outstanding_send.length_eq, hs rfl]; exact Nat.le_refl _
  | unrecorded => exact hl
  | deliver hm => rwa [(World.outstanding_deliver hm).length_eq]
  | ack => exact Nat.le_trans World.outstanding_ack.length_le hl
  | requeue pc hm =>
    rw [World.outstanding_requeue.length_eq, List.length_cons]
    exact Nat.le_trans (World.length_outstanding_ack hp) hl
  | request | cancel | write => exact hl

theorem World.eq_of_outstanding {t' : TaskId} (hl : w.outstanding.length ≤ 1)
    (ht : t ∈ w.outstanding) (ht' : t' ∈ w.outstanding) : t = t' := by
  match hw : w.outstanding, hl with
  | [], _ =>
    rw [hw] at ht
    cases ht
  | [u], _ =>
    rw [hw] at ht ht'
    exact (List.mem_singleton.mp ht).trans (List.mem_singleton.mp ht').symm

/-- The commit of a request that has loaded an inactive row makes it queued. -/
theorem demoPreviewStatus_request {video : Video} {task : TaskId} {now : Time}
    (h : video.demoPreviewStatus.isActive = false) (stored : Video) :
    (video.flush (CreateDemoPreview.assign now task video) stored).demoPreviewStatus = .queued := by
  refine flushColumn_of_ne fun he => ?_
  rw [← he] at h
  cases h

/-- A write that is not the last one leaves an active row active. -/
theorem isActive_write {video stored : Video} {task : TaskId} {now : Time}
    {write : RunDemoPreview.Write} (hl : write.isLast = false)
    (h : stored.demoPreviewStatus.isActive = true) :
    (video.flush (write.assign now task video) stored).demoPreviewStatus.isActive = true := by
  have hw : (write.assign now task video).demoPreviewStatus.isActive = true := by
    cases write with
    | running => rfl
    | queued => rfl
    | _ => cases hl
  rcases flushColumn_eq_or video.demoPreviewStatus (write.assign now task video).demoPreviewStatus
    stored.demoPreviewStatus with he | he
  · exact (congrArg DemoPreviewStatus.isActive he).trans h
  · exact (congrArg DemoPreviewStatus.isActive he).trans hw

theorem State.Alone.active_after (h : c.Alone)
    (hs : (c.procs i).step S i c.world a = some (p', f)) (ht : t ∈ (c.world.apply i f).outstanding)
    (hr : t ∈ (c.world.apply i f).requested) (he : t ∉ (c.world.apply i f).ended) :
    (c.world.apply i f).video.demoPreviewStatus.isActive = true := by
  have hm := Proc.step_moves hs
  have hp := h.sound.holds i
  have ht' := hm.outstanding hp ht
  generalize hq : c.procs i = q at hm hp
  cases hm with
  | silent hf =>
    rw [World.video_apply hf.ne_commit]
    rw [World.requested_apply hf.ne_commit] at hr
    rw [World.ended_apply hf.ne_commit] at he
    refine h.active t (ht'.resolve_right ?_) hr he
    rintro ⟨rfl, -⟩
    exact hf
  | send pc =>
    refine h.active t (ht'.resolve_right ?_) hr he
    rintro ⟨-, rfl⟩
    exact Nat.lt_irrefl _ (h.sound.lawful.requested _ hr)
  | request video task =>
    rw [World.video_apply_commit]
    exact congrArg DemoPreviewStatus.isActive (demoPreviewStatus_request hp.2.1 _)
  | cancel video => exact (h.create i _ hq).elim
  | write m write video hook pc =>
    have ht' := ht'.resolve_right fun h => by cases h.1
    rw [World.requested_apply_commit] at hr
    rw [World.ended_apply_commit, List.mem_append, not_or] at he
    rw [World.video_apply_commit]
    refine isActive_write (eq_false_of_ne_true fun hl => he.1 ?_) (h.active t ht' hr he.2)
    -- The last write of an execution: no other task is outstanding.
    rw [RunDemoPreview.Write.tx, if_pos hl]
    exact List.mem_singleton.mpr
      (World.eq_of_outstanding h.length_le ht' (World.mem_outstanding_of_unacked hp))
  | _ => exact h.active t (ht'.resolve_right fun h => by cases h.1) hr he

/-- **A turn that satisfies the condition.** -/
theorem State.Alone.after (h : c.Alone) (hok : SendsRecorded c i a)
    (hs : (c.procs i).step S i c.world a = some (p', f)) : (c.after i p' f).Alone where
  sound := h.sound.after hs
  create j pc := by
    by_cases hj : j = i
    · subst hj
      rw [procs_after]
      rintro rfl
      have hm := Proc.step_moves hs
      generalize hq : c.procs j = q at hm
      cases hm with
      | silent _ _ hc =>
        obtain ⟨pc', rfl⟩ := hc ⟨_, rfl⟩
        exact h.create j _ hq
    · rw [procs_after_of_ne _ _ _ hj]
      exact h.create j pc
  length_le := by
    refine (Proc.step_moves hs).length_outstanding (h.sound.holds i) h.length_le ?_
    rintro rfl
    have hm := Proc.step_moves hs
    generalize hq : c.procs i = q at hm
    cases hm with
    | silent hf => exact hf.elim
    | send pc => exact h.outstanding_eq_nil hok hq
  active t ht hr he := h.active_after hs ht hr he

theorem alone_of_reach (h : (system S).Reach State.DeployedWithoutCancel SendsRecorded c) :
    c.Alone := by
  refine h.invariant (fun _ hc => hc.alone) ?_
  intro c c' i a hc hok hn
  obtain ⟨p, f, hs, rfl⟩ := next_eq_some.mp hn
  exact hc.after hok hs

/-- A request that has sent its message ends without a write only if its commit raises. -/
theorem fails_of_unrecorded {video : Video} {task : TaskId}
    (h : (Proc.create (.recording video task .commit)).step S i w a = some (p', .skip)) :
    a.fails = true := by
  cases a with
  | error message => rfl
  | lost => rfl
  | _ => cases h

/-- **At most one task is outstanding**, in runs of turns that satisfy the condition. -/
theorem enqueuesAlone_of_reach
    (h : (system S).Reach State.DeployedWithoutCancel SendsRecorded c)
    (hok : SendsRecorded c i a) : c.EnqueuesAlone S i a := by
  have hc := alone_of_reach h
  intro p' f hs
  have hm := Proc.step_moves hs
  refine ⟨?_, ?_⟩
  · rintro rfl
    generalize hq : c.procs i = q at hm
    cases hm with
    | silent hf => exact hf.elim
    | send pc => exact hc.outstanding_eq_nil hok hq
  · rintro video task pc hq rfl
    have hp := hc.sound.holds i
    rw [hq] at hm hp
    cases hm with
    | silent _ _ _ hn => exact (hn video task pc rfl rfl).elim
    | request =>
      rw [World.video_apply_commit]
      exact demoPreviewTaskId_request hp.1 _ _
    | unrecorded =>
      rw [hq] at hs
      rw [SendsRecorded, hq, fails_of_unrecorded hs] at hok
      cases hok

/-! ### Two runs -/

/-- Two requests and a worker. -/
def twoRequests : State where
  procs
    | 0 => .create .load
    | 1 => .create .load
    | 2 => .idle
    | _ => .done
  world := processedVideo

theorem deployed_twoRequests : twoRequests.DeployedWithoutCancel where
  deployed := by
    refine deployed_processedVideo fun i => ?_
    split
    · rfl
    · rfl
    all_goals trivial
  create i pc := by
    unfold twoRequests
    dsimp only
    split <;> intro h <;> cases h

/-- **One preview after the other**, in the local configuration: the first one is complete, and the
second request is about to send its message. -/
theorem exists_enqueuesAlone :
    ∃ c : State, c.EnqueuesAlone .development 1 .ok ∧ c.world.requested = [0] ∧
      ∃ c', (system .development).next c 1 .ok = some c' ∧ c'.world.outstanding = [1] := by
  obtain ⟨c, hc, hb⟩ := Machine.exists_reach_of_exec (system .development) SendsRecorded
    deployed_twoRequests
    (List.replicate 16 (0, .ok) ++ executeTurns 2 ++ completeTurns 2 ++ [(2, .ok), (2, .ok)] ++
      List.replicate 10 (1, .ok))
    (fun c => decide (SendsRecorded c 1 .ok) && (decide (c.world.requested = [0]) &&
      ((system .development).next c 1 .ok).any fun c' => c'.world.outstanding = [1]))
    (by decide +kernel)
  simp only [Bool.and_eq_true, decide_eq_true_eq, Option.any_eq_true] at hb
  obtain ⟨hok, hr, hn⟩ := hb
  exact ⟨c, enqueuesAlone_of_reach hc hok, hr, hn⟩

/-- In this turn a request sends a message while that of task 0 is outstanding. -/
def State.sendsBesides (S : Settings) (c : State) (i : Pid) (a : Answer) : Bool :=
  c.world.outstanding = [0] &&
    ((c.procs i).step S i c.world a).any fun t => t.2 matches .send

theorem State.not_enqueuesAlone (h : c.sendsBesides S i a = true) : ¬ c.EnqueuesAlone S i a := by
  obtain ⟨ho, h⟩ := Bool.and_eq_true_iff.mp h
  obtain ⟨⟨p', f⟩, hs, hf⟩ := (Option.any_eq_true _ _).mp h
  cases f with
  | send =>
    intro hc
    have hn := (hc p' .send hs).1 rfl
    rw [of_decide_eq_true ho] at hn
    cases hn
  | _ => cases hf

/-- **Two requests at the same time.** Both have found the row idle, and the first one has sent its
message. -/
theorem exists_not_enqueuesAlone :
    ∃ c : State, (system .alpha).Reach State.DeployedWithoutCancel Machine.Always c ∧
      ¬ c.EnqueuesAlone .alpha 1 .ok := by
  obtain ⟨c, hc, hb⟩ := Machine.exists_reach_of_exec (system .alpha) Machine.Always
    deployed_twoRequests [(0, .ok), (1, .ok), (0, .ok), (1, .ok), (0, .ok)]
    (fun c : State => c.sendsBesides .alpha 1 .ok) (by decide +kernel)
  exact ⟨c, hc, State.not_enqueuesAlone hb⟩

/-- **A message that comes back.** The execution is killed after its last write. The row says that
the preview is complete, and the second request sends its message while the first one is to be
delivered again. -/
theorem exists_not_enqueuesAlone_of_lost :
    ∃ c : State, (system .alpha).Reach State.DeployedWithoutCancel Machine.Always c ∧
      ¬ c.EnqueuesAlone .alpha 1 .ok := by
  obtain ⟨c, hc, hb⟩ := Machine.exists_reach_of_exec (system .alpha) Machine.Always
    deployed_twoRequests
    (requestTurns 0 ++ executeTurns 2 ++ completeTurns 2 ++ [(2, .ok), (2, .lost)] ++
      [(1, .ok), (1, .ok)])
    (fun c : State => c.sendsBesides .alpha 1 .ok) (by decide +kernel)
  exact ⟨c, hc, State.not_enqueuesAlone hb⟩

end NextBallUp.Preview
