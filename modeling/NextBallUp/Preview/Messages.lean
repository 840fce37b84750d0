import NextBallUp.Preview.Requests

/-!
# Messages of the demo preview

What a turn can do, and which messages are outstanding after it: still in the queue, for the first
time or for a retry, or delivered and not acknowledged.

## Main definitions

* `World.outstanding`: the tasks whose messages are outstanding
* `Proc.Holds`, `State.Sound`: what every process knows
* `Move`: what a turn can do

## Main results

* `Proc.step_moves`: nothing else
* `sound_of_reach`: what every process knows holds throughout
-/

namespace NextBallUp.Preview

variable {S : Settings} {pid : Pid} {w w' : World} {a : Answer} {p p' : Proc} {f : Effect}
  {m m' : Message} {video : Video} {task t : TaskId} {c : State}

/-! ### Outstanding messages -/

/-- The tasks that are queued, running or waiting for a retry. -/
def World.outstanding (w : World) : List TaskId :=
  w.queue.map Message.task ++ w.unacked.map fun d => d.2.task

/-- Messages, broker and row stay as they are. -/
def Effect.IsSilent : Effect → Prop
  | .skip | .files _ | .tick _ => True
  | _ => False

theorem World.mem_outstanding :
    t ∈ w.outstanding ↔ (∃ m ∈ w.queue, m.task = t) ∨ ∃ d ∈ w.unacked, d.2.task = t := by
  simp only [outstanding, List.mem_append, List.mem_map]

theorem World.mem_outstanding_of_unacked (h : (pid, m) ∈ w.unacked) : m.task ∈ w.outstanding :=
  mem_outstanding.mpr (.inr ⟨_, h, rfl⟩)

theorem World.outstanding_send :
    (w.apply pid .send).outstanding.Perm (w.nextTask :: w.outstanding) := by
  simp only [outstanding, apply, List.map_append, List.map_cons, List.map_nil, List.append_assoc]
  exact List.perm_middle

theorem World.outstanding_deliver (h : m ∈ w.queue) :
    (w.apply pid (.deliver m)).outstanding.Perm w.outstanding := by
  simp only [outstanding, apply, List.map_cons]
  refine List.perm_middle.trans ?_
  rw [← List.cons_append, ← List.map_cons (f := Message.task)]
  exact ((List.perm_cons_erase h).map _).symm.append_right _

theorem World.outstanding_ack : (w.ack pid).outstanding.Sublist w.outstanding :=
  (List.Sublist.refl _).append (List.filter_sublist.map _)

/-- An acknowledgement takes a message away. -/
theorem World.length_outstanding_ack (h : (pid, m) ∈ w.unacked) :
    (w.ack pid).outstanding.length < w.outstanding.length := by
  simp only [outstanding, ack, List.length_append, List.length_map]
  exact Nat.add_lt_add_left (List.length_filter_lt_length_iff_exists.mpr ⟨_, h, by simp⟩) _

theorem World.outstanding_requeue :
    (w.apply pid (.requeue m)).outstanding.Perm (m.task :: (w.ack pid).outstanding) := by
  simp only [outstanding, apply, ack, List.map_append, List.map_cons, List.map_nil,
    List.append_assoc]
  exact List.perm_middle

/-! ### What every process knows -/

/-- The task of the row object is an earlier one. -/
def Video.Below (v : Video) (n : TaskId) : Prop := ∀ t, v.demoPreviewTaskId = some t → t < n

/-- What a process knows: a request that will enqueue has loaded a row that was neither queued nor
running, before its task had an id; the message of an execution is not acknowledged. -/
def Proc.Holds (pid : Pid) (w : World) : Proc → Prop
  | .create (.decide video) => video.Below w.nextTask
  | .create (.asking video _) =>
    video.Below w.nextTask ∧ video.demoPreviewStatus.isActive = false
  | .create (.recording video task _) =>
    video.Below task ∧ video.demoPreviewStatus.isActive = false ∧ task < w.nextTask
  | .execute m _ => (pid, m) ∈ w.unacked
  | _ => True

/-- Ids of tasks have been given out. -/
structure World.Lawful (w : World) : Prop where
  video : w.video.Below w.nextTask
  outstanding : ∀ t ∈ w.outstanding, t < w.nextTask
  requested : ∀ t ∈ w.requested, t < w.nextTask

theorem Video.Below.mono {n n' : TaskId} (h : video.Below n) (hn : n ≤ n') : video.Below n' :=
  fun t ht => Nat.lt_of_lt_of_le (h t ht) hn

/-- What the others do not disturb. -/
theorem Proc.Holds.frame (h : p.Holds pid w) (hn : w.nextTask ≤ w'.nextTask)
    (hu : ∀ m, (pid, m) ∈ w.unacked → (pid, m) ∈ w'.unacked) : p.Holds pid w' := by
  cases p with
  | create pc =>
    cases pc with
    | decide video => exact Video.Below.mono h hn
    | asking video pc => exact ⟨h.1.mono hn, h.2⟩
    | recording video task pc => exact ⟨h.1, h.2.1, Nat.lt_of_lt_of_le h.2.2 hn⟩
    | _ => trivial
  | execute m pc => exact hu m h
  | _ => trivial

/-! ### What a turn can do -/

/-- What a turn of process `pid` can do. -/
inductive Move (pid : Pid) (w : World) : Proc → Proc → Effect → Prop
  /-- A request, or an execution that goes on. -/
  | silent {p p' : Proc} {f : Effect} : f.IsSilent → (w.video.Below w.nextTask →
      p.Holds pid w → p'.Holds pid w) → ((∃ pc, p' = .cancel pc) → ∃ pc, p = .cancel pc) →
      (∀ video task pc, p = .create (.recording video task pc) → p' ≠ .done) → Move pid w p p' f
  | send {video : Video} {queued : Option (Option Time × DemoPreviewState)}
      (pc : CreateDemoPreview.Recording) : Move pid w (.create (.asking video (.send queued)))
        (.create (.recording video w.nextTask pc)) .send
  | request (video : Video) (task : TaskId) : Move pid w (.create (.recording video task .commit))
      .done (.commit (CreateDemoPreview.tx w.now task video))
  /-- The commit of a request that has sent its message raises. -/
  | unrecorded (video : Video) (task : TaskId) :
      Move pid w (.create (.recording video task .commit)) .done .skip
  | cancel (video : Video) :
      Move pid w (.cancel (.commit video)) .done (.commit (CancelDemoPreview.tx w.now video))
  | deliver {m : Message} : m ∈ w.queue → Move pid w .idle (.execute m .start) (.deliver m)
  | ack (m : Message) (pc : RunDemoPreview.Pc) : Move pid w (.execute m pc) .done .ack
  | requeue {m m' : Message} (pc : RunDemoPreview.Pc) : m'.task = m.task →
      Move pid w (.execute m pc) .done (.requeue m')
  | write (m : Message) (write : RunDemoPreview.Write) (video : Video) (hook : Bool)
      (pc : RunDemoPreview.Pc) : Move pid w (.execute m (.commit write video hook)) (.execute m pc)
        (.commit (write.tx w.now m.task video))

theorem resolveTurn_eq_some {here : Resolve → Proc} {after : DemoPreviewState → Proc}
    {r : Resolve} (h : resolveTurn S w here after r = some (p', f)) :
    (∃ files, f = .files files) ∧ ((∃ r', p' = here r') ∨ ∃ state, p' = after state) := by
  unfold resolveTurn at h
  split at h <;> cases h
  · exact ⟨⟨_, rfl⟩, .inl ⟨_, rfl⟩⟩
  · exact ⟨⟨_, rfl⟩, .inr ⟨_, rfl⟩⟩

theorem markTurn_eq_some {mark : Mark} {here : Marking → Proc} {after : DemoPreviewState → Proc}
    {pc : Marking} (h : markTurn S w mark here after pc = some (p', f)) :
    (∃ files, f = .files files) ∧ ((∃ pc', p' = here pc') ∨ ∃ state, p' = after state) := by
  unfold markTurn at h
  split at h <;> cases h
  · exact ⟨⟨_, rfl⟩, .inl ⟨_, rfl⟩⟩
  · exact ⟨⟨_, rfl⟩, .inr ⟨_, rfl⟩⟩

namespace CreateDemoPreview

/-- A turn of a request that neither sends nor commits. -/
theorem silent {pc : Pc} (hf : f.IsSilent) (hh : w.video.Below w.nextTask →
    (Proc.create pc).Holds pid w → p'.Holds pid w) (hc : ∀ pc, p' ≠ .cancel pc)
    (hr : ∀ video task pc', pc = .recording video task pc' → p' ≠ .done) :
    Move pid w (.create pc) p' f := by
  refine .silent hf hh (fun ⟨pc, h⟩ => (hc pc h).elim) ?_
  intro video task pc' h
  cases h
  exact hr video task pc' rfl

/-- The request asks on, or it will enqueue nothing. -/
theorem Asking.silent {pc : Asking} (hf : f.IsSilent)
    (hp : (∃ pc', p' = .create (.asking video pc')) ∨ (∃ pc', p' = .create (.leaving pc')) ∨
      p' = .done) : Move pid w (.create (.asking video pc)) p' f := by
  rcases hp with ⟨pc', rfl⟩ | ⟨pc', rfl⟩ | rfl
  · exact CreateDemoPreview.silent hf (fun _ h => h) (fun _ h => by cases h)
      fun _ _ _ h => by cases h
  · exact CreateDemoPreview.silent hf (fun _ _ => trivial) (fun _ h => by cases h)
      fun _ _ _ h => by cases h
  · exact CreateDemoPreview.silent hf (fun _ _ => trivial) (fun _ h => by cases h)
      fun _ _ _ h => by cases h

theorem Asking.step_moves {pc : Asking} (h : pc.step S pid w a video = some (p', f)) :
    Move pid w (.create (.asking video pc)) p' f := by
  cases pc with
  | acquire deadline pc =>
    simp only [step, Option.some.injEq, Prod.mk.injEq] at h
    obtain ⟨hp, rfl⟩ := h
    refine silent trivial ?_
    split at hp
    · exact .inl ⟨_, hp.symm⟩
    · exact .inl ⟨_, hp.symm⟩
    · split at hp
      · exact .inr (.inl ⟨_, hp.symm⟩)
      · exact .inl ⟨_, hp.symm⟩
  | readState r =>
    obtain ⟨⟨files, rfl⟩, ⟨r', rfl⟩ | ⟨state, rfl⟩⟩ := resolveTurn_eq_some h
    · exact silent trivial (.inl ⟨_, rfl⟩)
    · refine silent trivial ?_
      split
      · exact .inr (.inl ⟨_, rfl⟩)
      · exact .inl ⟨_, rfl⟩
  | readArtifact =>
    cases h
    exact silent trivial (.inl ⟨_, rfl⟩)
  | markQueued artifact requestedAt pc =>
    obtain ⟨⟨files, rfl⟩, ⟨pc', rfl⟩ | ⟨state, rfl⟩⟩ := markTurn_eq_some h
    · exact silent trivial (.inl ⟨_, rfl⟩)
    · exact silent trivial (.inl ⟨_, rfl⟩)
  | send queued =>
    simp only [step] at h
    split at h <;> cases h
    · exact silent trivial (.inr (.inr rfl))
    · exact silent trivial (.inr (.inl ⟨_, rfl⟩))
    · exact silent trivial (.inr (.inl ⟨_, rfl⟩))
    · exact .send _
    · exact .send _

theorem Recording.step_moves {pc : Recording} (h : pc.step S w a video task = some (p', f)) :
    Move pid w (.create (.recording video task pc)) p' f := by
  have hs : ∀ pc' f', Effect.IsSilent f' → Move pid w (.create (.recording video task pc))
      (.create (.recording video task pc')) f' := fun pc' f' hf =>
    silent hf (fun _ h => h) (fun _ h => by cases h) fun _ _ _ _ h => by cases h
  cases pc with
  | markQueued change pc =>
    obtain ⟨⟨files, rfl⟩, ⟨pc', rfl⟩ | ⟨state, rfl⟩⟩ := markTurn_eq_some h
    · exact hs _ _ trivial
    · exact hs _ _ trivial
  | release =>
    cases h
    exact hs _ _ trivial
  | commit =>
    simp only [step] at h
    split at h <;> cases h
    · exact .unrecorded video task
    · exact .request video task

/-- A request that enqueues nothing knows nothing. -/
theorem Leaving.silent {pc : Leaving} (hf : f.IsSilent)
    (hp : (∃ pc', p' = .create (.leaving pc')) ∨ p' = .done) :
    Move pid w (.create (.leaving pc)) p' f := by
  rcases hp with ⟨pc', rfl⟩ | rfl
  · exact CreateDemoPreview.silent hf (fun _ _ => trivial) (fun _ h => by cases h)
      fun _ _ _ h => by cases h
  · exact CreateDemoPreview.silent hf (fun _ _ => trivial) (fun _ h => by cases h)
      fun _ _ _ h => by cases h

theorem Leaving.step_moves {pc : Leaving} (h : pc.step S w = some (p', f)) :
    Move pid w (.create (.leaving pc)) p' f := by
  cases pc with
  | resolveState r =>
    obtain ⟨⟨files, rfl⟩, ⟨r', rfl⟩ | ⟨state, rfl⟩⟩ := resolveTurn_eq_some h
    · exact silent trivial (.inl ⟨_, rfl⟩)
    · exact silent trivial (.inr rfl)
  | mark change pc =>
    obtain ⟨⟨files, rfl⟩, ⟨pc', rfl⟩ | ⟨state, rfl⟩⟩ := markTurn_eq_some h
    · exact silent trivial (.inl ⟨_, rfl⟩)
    · exact silent trivial (.inl ⟨_, rfl⟩)
  | release =>
    cases h
    exact silent trivial (.inr rfl)

theorem step_moves {pc : Pc} (h : step S pid w a pc = some (p', f)) :
    Move pid w (.create pc) p' f := by
  cases pc with
  | load =>
    simp only [step] at h
    split at h <;> cases h
    · exact silent trivial (fun _ _ => trivial) (fun _ h => by cases h) fun _ _ _ h => by cases h
    · exact silent trivial (fun hv _ => hv) (fun _ h => by cases h) fun _ _ _ h => by cases h
  | decide video =>
    have hd : Move pid w (.create (.decide video)) .done .skip :=
      silent trivial (fun _ _ => trivial) (fun _ h => by cases h) fun _ _ _ h => by cases h
    simp only [step] at h
    split at h
    · cases h
      exact hd
    · split at h
      · cases h
        exact hd
      · split at h
        · cases h
          exact hd
        · next hs =>
          have ha : ∀ pc',
            Move pid w (.create (.decide video)) (.create (.asking video pc')) .skip :=
            fun pc' => silent trivial (fun _ hv => ⟨hv, eq_false_of_ne_true hs⟩)
              (fun _ h => by cases h) fun _ _ _ h => by cases h
          split at h <;> cases h <;> exact ha _
  | asking video pc => exact Asking.step_moves h
  | recording video task pc => exact Recording.step_moves h
  | leaving pc => exact Leaving.step_moves h

end CreateDemoPreview

theorem CancelDemoPreview.step_moves {pc : Pc} (h : step w a pc = some (p', f)) :
    Move pid w (.cancel pc) p' f := by
  have hs : ∀ p', (∀ m pc, p' ≠ .execute m pc) → (∀ pc, p' ≠ .create pc) →
      Move pid w (.cancel pc) p' .skip := by
    intro p' he hc
    refine .silent trivial (fun _ _ => ?_) (fun _ => ⟨pc, rfl⟩) fun _ _ _ h => by cases h
    cases p' with
    | create pc' => exact (hc pc' rfl).elim
    | execute m pc' => exact (he m pc' rfl).elim
    | _ => trivial
  cases pc with
  | load =>
    simp only [step] at h
    split at h
    · cases h
      exact hs _ (fun _ _ h => by cases h) fun _ h => by cases h
    · cases h
      exact hs _ (fun _ _ h => by cases h) fun _ h => by cases h
    · split at h <;> cases h
      · exact hs _ (fun _ _ h => by cases h) fun _ h => by cases h
      · exact hs _ (fun _ _ h => by cases h) fun _ h => by cases h
  | commit video =>
    simp only [step] at h
    split at h <;> cases h
    · exact hs _ (fun _ _ h => by cases h) fun _ h => by cases h
    · exact .cancel video

namespace RunDemoPreview

/-- An execution goes on. -/
theorem silent {pc pc' : Pc} (hf : f.IsSilent) : Move pid w (.execute m pc) (.execute m pc') f :=
  .silent hf (fun _ h => h) (fun ⟨_, h⟩ => by cases h) fun _ _ _ h => by cases h

theorem raised_moves {pc : Pc} {hook : Bool} {message : String}
    (h : raised m hook message = some (p', f)) : Move pid w (.execute m pc) p' f := by
  unfold raised at h
  split at h <;> cases h
  · exact .ack m pc
  · exact silent trivial

theorem raised_ne_commit {hook : Bool} {message : String} {tx : Tx} :
    raised m hook message ≠ some (p', .commit tx) := by
  unfold raised
  split <;> intro h <;> cases h

theorem step_moves {pc : Pc} (h : step S w a m pc = some (p', f)) :
    Move pid w (.execute m pc) p' f := by
  cases pc with
  | start | load | render | upload | finalize =>
    simp only [step] at h
    split at h
    all_goals first
      | exact raised_moves h
      | cases h; exact silent trivial
  | generate video =>
    simp only [step] at h
    split at h <;> cases h <;> exact silent trivial
  | mark change pc next =>
    obtain ⟨⟨files, rfl⟩, ⟨pc', rfl⟩ | ⟨state, rfl⟩⟩ := markTurn_eq_some h
    · exact silent trivial
    · exact silent trivial
  | commit write video hook =>
    simp only [step] at h
    split at h
    · cases h
      exact silent trivial
    · exact raised_moves h
    · cases h
      exact .write m .running video hook _
    · cases h
      exact .write m .queued video hook _
    · cases h
      exact .write m write video hook _
  | resolveState r =>
    obtain ⟨⟨files, rfl⟩, ⟨r', rfl⟩ | ⟨state, rfl⟩⟩ := resolveTurn_eq_some h
    · exact silent trivial
    · exact silent trivial
  | retry =>
    simp only [step] at h
    split at h
    · exact raised_moves h
    · split at h <;> cases h
      · exact silent trivial
      · exact .requeue _ rfl
  | finish =>
    cases h
    exact .ack m _

end RunDemoPreview

/-- **What a turn can do.** -/
theorem Proc.step_moves (h : p.step S pid w a = some (p', f)) : Move pid w p p' f := by
  unfold step at h
  split at h
  · next m pc =>
    cases h
    exact .requeue pc rfl
  · cases h
  · cases p with
    | create pc => exact CreateDemoPreview.step_moves h
    | cancel pc => exact CancelDemoPreview.step_moves h
    | execute m pc => exact RunDemoPreview.step_moves h
    | idle =>
      simp only [turn] at h
      split at h
      · split at h <;> cases h
        next hm => exact .deliver hm
      · cases h
    | clock =>
      simp only [turn] at h
      split at h <;> cases h
      exact .silent trivial (fun _ _ => trivial) (fun ⟨_, h⟩ => by cases h)
        fun _ _ _ h => by cases h
    | done => cases h

/-- The statement fails: the database raises, or the worker is killed. -/
def Answer.fails : Answer → Bool
  | .error _ | .lost => true
  | _ => false

/-- A statement that fails commits nothing. -/
theorem Proc.not_fails_of_commit {tx : Tx} (h : p.step S pid w a = some (p', .commit tx)) :
    a.fails = false := by
  cases a with
  | error message =>
    cases Proc.step_moves h with
    | silent hf => exact hf.elim
    | request video task => cases h
    | cancel video => cases h
    | write m write video hook =>
      cases write with
      | running => cases h
      | _ => exact (RunDemoPreview.raised_ne_commit h).elim
  | lost =>
    unfold step at h
    cases p <;> cases h
  | _ => rfl

/-! ### One turn -/

section Apply

theorem World.nextTask_le_apply : w.nextTask ≤ (w.apply pid f).nextTask := by
  cases f with
  | send => exact Nat.le_succ _
  | _ => exact Nat.le_refl _

/-- Only its own process acknowledges a message. -/
theorem World.unacked_apply {j : Pid} (hj : j ≠ pid) (h : (j, m) ∈ w.unacked) :
    (j, m) ∈ (w.apply pid f).unacked := by
  have ha : (j, m) ∈ (w.ack pid).unacked :=
    List.mem_filter.mpr ⟨h, by simpa using hj⟩
  cases f with
  | deliver m' => exact List.mem_cons_of_mem _ h
  | ack | requeue m' => exact ha
  | _ => exact h

@[simp] theorem World.video_apply_commit (tx : Tx) :
    (w.apply pid (.commit tx)).video = tx.loaded.flush tx.current w.video := rfl

@[simp] theorem World.requested_apply_commit (tx : Tx) :
    (w.apply pid (.commit tx)).requested = tx.requested.toList ++ w.requested := rfl

@[simp] theorem World.ended_apply_commit (tx : Tx) :
    (w.apply pid (.commit tx)).ended = tx.ended.toList ++ w.ended := rfl

@[simp] theorem World.eventsJob_apply_commit (tx : Tx) :
    (w.apply pid (.commit tx)).eventsJob = tx.events w.eventsJob := rfl

/-- A turn that does not commit leaves the row alone. -/
theorem World.video_apply (h : ∀ tx, f ≠ .commit tx) : (w.apply pid f).video = w.video := by
  cases f with
  | commit tx => exact (h tx rfl).elim
  | _ => rfl

theorem World.requested_apply (h : ∀ tx, f ≠ .commit tx) :
    (w.apply pid f).requested = w.requested := by
  cases f with
  | commit tx => exact (h tx rfl).elim
  | _ => rfl

theorem World.ended_apply (h : ∀ tx, f ≠ .commit tx) : (w.apply pid f).ended = w.ended := by
  cases f with
  | commit tx => exact (h tx rfl).elim
  | _ => rfl

theorem World.outstanding_apply_silent (h : f.IsSilent) :
    (w.apply pid f).outstanding = w.outstanding := by
  cases f <;> first | rfl | exact h.elim

theorem Effect.IsSilent.ne_commit (h : f.IsSilent) (tx : Tx) : f ≠ .commit tx := by
  rintro rfl
  exact h

/-- **After a turn only the message that it has sent is outstanding that was not before.** -/
theorem Move.outstanding (h : Move pid w p p' f) (hp : p.Holds pid w)
    (ht : t ∈ (w.apply pid f).outstanding) :
    t ∈ w.outstanding ∨ f = .send ∧ t = w.nextTask := by
  cases h with
  | silent hf =>
    rw [World.outstanding_apply_silent hf] at ht
    exact .inl ht
  | send =>
    rcases List.mem_cons.mp (World.outstanding_send.mem_iff.mp ht) with rfl | ht
    · exact .inr ⟨rfl, rfl⟩
    · exact .inl ht
  | unrecorded => exact .inl ht
  | deliver hm => exact .inl ((World.outstanding_deliver hm).mem_iff.mp ht)
  | ack => exact .inl (World.outstanding_ack.subset ht)
  | requeue pc hm =>
    rcases List.mem_cons.mp (World.outstanding_requeue.mem_iff.mp ht) with rfl | ht
    · rw [hm]
      exact .inl (World.mem_outstanding_of_unacked hp)
    · exact .inl (World.outstanding_ack.subset ht)
  | request | cancel | write => exact .inl ht

end Apply

/-- The state after a turn of process `i`. -/
def State.after (c : State) (i : Pid) (p' : Proc) (f : Effect) : State :=
  ⟨Function.update c.procs i p', c.world.apply i f⟩

@[simp] theorem State.procs_after (c : State) (i : Pid) (p' : Proc) (f : Effect) :
    (c.after i p' f).procs i = p' := Function.update_self ..

theorem State.procs_after_of_ne (c : State) (p' : Proc) (f : Effect) {i j : Pid} (h : j ≠ i) :
    (c.after i p' f).procs j = c.procs j := Function.update_of_ne h ..

@[simp] theorem State.world_after (c : State) (i : Pid) (p' : Proc) (f : Effect) :
    (c.after i p' f).world = c.world.apply i f := rfl

theorem next_eq_some {c c' : State} {i : Pid} :
    (system S).next c i a = some c' ↔
      ∃ p f, (c.procs i).step S i c.world a = some (p, f) ∧ c' = c.after i p f :=
  Machine.next_ofEffects_eq_some

/-- What every process knows, and which ids have been given out. -/
structure State.Sound (c : State) : Prop where
  lawful : c.world.Lawful
  holds : ∀ i, (c.procs i).Holds i c.world

theorem Video.Below.flush {loaded current stored : Video} {n : TaskId} (hs : stored.Below n)
    (hc : current.Below n) : (loaded.flush current stored).Below n := by
  intro t ht
  rcases flushColumn_eq_or loaded.demoPreviewTaskId current.demoPreviewTaskId
    stored.demoPreviewTaskId with h | h
  · exact hs t (h.symm.trans ht)
  · exact hc t (h.symm.trans ht)

/-- An execution assigns the id of its own task. -/
theorem RunDemoPreview.Write.demoPreviewTaskId_assign (write : RunDemoPreview.Write) (now : Time) :
    (write.assign now task video).demoPreviewTaskId = some task := by
  cases write <;> rfl

/-- The id of the new task is written: the row object had been loaded before there was one. -/
theorem demoPreviewTaskId_request {video : Video} {task : TaskId} (h : video.Below task)
    (now : Time) (stored : Video) :
    (video.flush (CreateDemoPreview.assign now task video) stored).demoPreviewTaskId =
      some task := by
  refine flushColumn_of_ne fun he => ?_
  exact Nat.lt_irrefl task (h task he.symm)

theorem Move.below (h : Move pid w p p' f) (hw : w.Lawful) (hp : p.Holds pid w) :
    (w.apply pid f).video.Below w.nextTask := by
  cases h with
  | request video task =>
    rw [World.video_apply_commit]
    refine hw.video.flush fun t ht => ?_
    cases ht
    exact hp.2.2
  | cancel video =>
    rw [World.video_apply_commit]
    refine hw.video.flush fun t ht => ?_
    cases ht
  | write m write video hook =>
    rw [World.video_apply_commit]
    refine hw.video.flush fun t ht => ?_
    rw [RunDemoPreview.Write.tx, RunDemoPreview.Write.demoPreviewTaskId_assign] at ht
    cases ht
    exact hw.outstanding _ (World.mem_outstanding_of_unacked hp)
  | silent hf =>
    rw [World.video_apply hf.ne_commit]
    exact hw.video
  | _ => exact hw.video

theorem Move.lawful (h : Move pid w p p' f) (hw : w.Lawful) (hp : p.Holds pid w) :
    (w.apply pid f).Lawful where
  video := (h.below hw hp).mono World.nextTask_le_apply
  outstanding t ht := by
    rcases h.outstanding hp ht with ht | ⟨rfl, rfl⟩
    · exact Nat.lt_of_lt_of_le (hw.outstanding t ht) World.nextTask_le_apply
    · exact Nat.lt_succ_self _
  requested t ht := by
    refine Nat.lt_of_lt_of_le ?_ World.nextTask_le_apply
    cases h with
    | request video task =>
      rw [World.requested_apply_commit] at ht
      rcases List.mem_cons.mp ht with rfl | ht
      · exact hp.2.2
      · exact hw.requested t ht
    | cancel | write =>
      rw [World.requested_apply_commit] at ht
      exact hw.requested t ht
    | silent hf =>
      rw [World.requested_apply hf.ne_commit] at ht
      exact hw.requested t ht
    | _ => exact hw.requested t ht

theorem Move.holds (h : Move pid w p p' f) (hw : w.Lawful) (hp : p.Holds pid w) :
    p'.Holds pid (w.apply pid f) := by
  cases h with
  | silent hf hh =>
    refine (hh hw.video hp).frame World.nextTask_le_apply fun m hm => ?_
    cases f with
    | skip | files | tick => exact hm
    | _ => exact hf.elim
  | send pc => exact ⟨hp.1, hp.2, Nat.lt_succ_self _⟩
  | deliver hm => exact List.mem_cons_self ..
  | write m write video hook pc => exact hp
  | _ => trivial

/-- **One turn.** -/
theorem State.Sound.after (h : c.Sound) {i : Pid}
    (hs : (c.procs i).step S i c.world a = some (p', f)) : (c.after i p' f).Sound where
  lawful := (Proc.step_moves hs).lawful h.lawful (h.holds i)
  holds j := by
    by_cases hj : j = i
    · subst hj
      rw [State.procs_after]
      exact (Proc.step_moves hs).holds h.lawful (h.holds j)
    · rw [State.procs_after_of_ne _ _ _ hj]
      exact (h.holds j).frame World.nextTask_le_apply fun m hm => World.unacked_apply hj hm

/-! ### Runs -/

/-- The process has not taken a turn yet. -/
def Proc.IsFresh : Proc → Prop
  | .create pc => pc = .load
  | .cancel pc => pc = .load
  | .execute _ _ => False
  | .idle | .clock | .done => True

/-- Nothing has been sent, and the row names no task but an earlier one. -/
structure State.Deployed (c : State) : Prop where
  fresh : ∀ i, (c.procs i).IsFresh
  video : c.world.video.Below c.world.nextTask
  queue : c.world.queue = []
  unacked : c.world.unacked = []
  requested : c.world.requested = []
  ended : c.world.ended = []

theorem Proc.IsFresh.holds (h : p.IsFresh) : p.Holds pid w := by
  cases p with
  | create pc => cases h; trivial
  | execute m pc => exact h.elim
  | _ => trivial

theorem State.Deployed.outstanding (h : c.Deployed) : c.world.outstanding = [] := by
  rw [World.outstanding, h.queue, h.unacked]
  rfl

theorem State.Deployed.sound (h : c.Deployed) : c.Sound where
  lawful :=
    { video := h.video
      outstanding := by
        intro t ht
        rw [h.outstanding] at ht
        cases ht
      requested := by
        intro t ht
        rw [h.requested] at ht
        cases ht }
  holds i := (h.fresh i).holds

/-! ### A processed video -/

/-- A processed video, before anything has been requested for it. -/
def processedVideo : World where
  video :=
    { id := 0
      status := .processed
      storageKeyMezzanine := some (storageKeyForMezzanine 0)
      demoPreviewStatus := .idle
      demoPreviewStorageKey := none
      demoPreviewRequestedAt := none
      demoPreviewStartedAt := none
      demoPreviewGeneratedAt := none
      demoPreviewTaskId := none
      demoPreviewErrorMessage := none }
  eventsJob := none
  queue := []
  unacked := []
  files := ⟨none, none, ⟨fun _ => none, 0⟩⟩
  requested := []
  ended := []
  nextTask := 0
  now := 0

theorem deployed_processedVideo {procs : Pid → Proc} (h : ∀ i, (procs i).IsFresh) :
    State.Deployed ⟨procs, processedVideo⟩ where
  fresh := h
  video t ht := by cases ht
  queue := rfl
  unacked := rfl
  requested := rfl
  ended := rfl

/-- An execution of task 0 until it has written that it is running. -/
def executeTurns (i : Pid) : List (Pid × Answer) :=
  (i, .deliver ⟨0, 0⟩) :: List.replicate 7 (i, .ok)

/-- What comes after that, until the artifact is about to be recorded. -/
def completeTurns (i : Pid) : List (Pid × Answer) :=
  (i, .generated 0 (.imported 3)) :: List.replicate 4 (i, .ok)

end NextBallUp.Preview
