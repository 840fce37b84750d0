import NextBallUp.Lib.Interleaving
import NextBallUp.Transcode
import NextBallUp.Requests

/-!
# The system

Any number of the processes of the other modules, taking turns on one world.

## Main definitions

* `Proc.step`: one turn of a process
* `system`: the machine
* `Deployed`: the configurations in which a run begins
* `oneUpload`, `uploadTurns`: a deployment in which a video is uploaded
-/

namespace NextBallUp

/-- Where a database error takes a process: a worker execution to its handler or hook, a request to
its end. The transaction is rolled back. Maintenance passes are not interrupted. -/
def Proc.onError (message : String) : Proc → Option Proc
  | .transcode e pc => some (ExecuteTranscode.onError e message pc)
  | .cvStage e _ => some (ExecuteCvStage.escape e .internalError message)
  | .onFailure .. | .initiate .. | .complete .. | .cancelUpload .. | .deleteFailed ..
  | .cancelProcessing .. | .requeueProcessing .. => some .done
  | .worker | .dispatch _ | .recover _ | .abandoned _ | .rawDeletes .. | .client .. | .clock
  | .done => none

/-- The task that a message starts: `run_transcode` or `run_cv_stage`. -/
def Message.start (m : Message) : Proc :=
  if m.job.stage = .transcode then .transcode ⟨m.taskId, m.job⟩ .loadJob
  else .cvStage ⟨m.taskId, m.job⟩ .loadJob

/-- One turn of process `pid`, unless a database statement raises. -/
def Proc.turn (S : Settings) (pid : Pid) (a : Answer) (w : World) : Proc → Turn
  | .worker =>
    match a with
    | .deliver n again => (w.queue[n]?).map fun m => (m.start, if again then .skip else .ack n)
    | _ => none
  | .transcode e pc => ExecuteTranscode.step S pid e w a pc
  | .cvStage e pc => ExecuteCvStage.step S pid e w a pc
  | .onFailure e err failVideo pc => TerminalFailure.step pid e err failVideo w pc
  | .dispatch pc => DispatchPendingJobs.step S pid w a pc
  | .recover pc => RecoverStaleJobs.step S pid w a pc
  | .abandoned pc => CleanupAbandonedUploads.step S pid w a pc
  | .rawDeletes pass pc => RawDeletes.step S pass pid w a pc
  | .initiate req pc => InitiateUpload.step S pid req w a pc
  | .complete req pc => CompleteUpload.step S pid req w a pc
  | .cancelUpload v pc => CancelUpload.step S pid v w a pc
  | .deleteFailed v pc => DeleteFailedVideo.step S pid v w a pc
  | .cancelProcessing v userId pc => CancelProcessing.step pid v userId w pc
  | .requeueProcessing v pc => RequeueProcessing.step S pid v w a pc
  | .client v o => if v < w.uuid then some (.done, .putObject (storageKeyForVideo v) o) else none
  | .clock =>
    match a with
    | .seconds n => some (.clock, .tick n)
    | _ => none
  | .done => none

/-- One turn of process `pid`. -/
def Proc.step (S : Settings) (pid : Pid) (a : Answer) (p : Proc) (w : World) : Turn :=
  match a with
  | .error message => (p.onError message).map fun p' => (p', .commit {})
  | a => p.turn S pid a w

/-- The machine whose processes are those of the pipeline. -/
def system (S : Settings) : Machine Pid Answer Proc World where
  step pid a p w := (p.step S pid a w).map fun t => (t.1, w.apply pid t.2)

/-- A configuration of the system. -/
abbrev State := Conf Pid Proc World

variable {S : Settings}

/-- What a turn makes of a state. -/
def State.after (c : State) (i : Pid) (p : Proc) (f : Effect) : State :=
  ⟨Function.update c.procs i p, c.world.apply i f⟩

section After

variable (c : State) (i : Pid) (p : Proc) (f : Effect)

@[simp] theorem State.procs_after : (c.after i p f).procs i = p := Function.update_self ..

theorem State.procs_after_of_ne {j : Pid} (h : j ≠ i) : (c.after i p f).procs j = c.procs j :=
  Function.update_of_ne h ..

@[simp] theorem State.world_after : (c.after i p f).world = c.world.apply i f := rfl

end After

theorem next_eq_some {c c' : State} {i : Pid} {a : Answer} :
    (system S).next c i a = some c' ↔
      ∃ p f, (c.procs i).step S i a c.world = some (p, f) ∧ c' = c.after i p f := by
  show (Machine.ofEffects (fun pid a p w => p.step S pid a w) World.apply).next c i a = some c' ↔ _
  exact Machine.next_ofEffects_eq_some

/-- A process that has not begun: a worker slot, a maintenance pass, a request, a client or the
clock. -/
def Proc.IsFresh : Proc → Prop
  | .worker | .dispatch .select | .recover .select | .abandoned .select | .rawDeletes _ .select
  | .initiate _ .lockAccount | .complete _ .lockVideo | .cancelUpload _ .lockVideo
  | .deleteFailed _ .lockVideo | .cancelProcessing _ _ .lockVideo
  | .requeueProcessing _ .lockVideo | .client .. | .clock | .done => True
  | _ => False

/-- A run begins with an empty database, any accounts and links, and any processes that have not
begun. -/
def Deployed (c : State) : Prop :=
  (∃ accounts links, c.world = .start accounts links) ∧ ∀ i, (c.procs i).IsFresh

/-! ### Given schedules -/

/-- A deployment with these accounts, links and processes. -/
def deployment (accounts : AccountId → Option Plan) (links : TeamId → Option AccountId)
    (procs : List Proc) : State where
  procs i := procs.getD i .done
  world := .start accounts links

theorem deployed_deployment {accounts : AccountId → Option Plan} {links : TeamId → Option AccountId}
    {procs : List Proc} (h : ∀ p ∈ procs, p.IsFresh) :
    Deployed (deployment accounts links procs) := by
  refine ⟨⟨accounts, links, rfl⟩, fun i => ?_⟩
  by_cases hi : i < procs.length
  · simpa [deployment, hi] using h _ (List.getElem_mem hi)
  · simp [deployment, hi, Proc.IsFresh]

/-- So many turns of process `i` in which nothing unusual happens. -/
def turns (i : Pid) (n : ℕ) : List (Pid × Answer) := List.replicate n (i, .ok)

/-- A plan without limits. -/
def Plan.unlimited : Plan := ⟨none, none, none, 0⟩

/-- Every team has an account of its own with an unlimited plan, and the first three processes
upload the first video. -/
def oneUpload (procs : List Proc) : State :=
  deployment (fun _ => some .unlimited) some
    (.initiate ⟨0, 10, none, []⟩ .lockAccount :: .client 0 ⟨10, 7, none, none⟩ ::
      .complete ⟨0, none, none⟩ .lockVideo :: procs)

theorem deployed_oneUpload (procs : List Proc) (h : ∀ p ∈ procs, p.IsFresh) :
    Deployed (oneUpload procs) := by
  refine deployed_deployment ?_
  simpa [Proc.IsFresh] using h

/-- The turns of the first three processes, after which the video is QUEUED. -/
def uploadTurns : List (Pid × Answer) := turns 0 6 ++ turns 1 1 ++ turns 2 3

/-- The turns of the first six processes, after which the last of them begins the transcode. The
three that follow those of `oneUpload` are a clock, a dispatcher and a worker. -/
def deliveryTurns : List (Pid × Answer) :=
  uploadTurns ++ [(3, .seconds 5), (4, .jobs [transcodeJob 0])] ++ turns 4 2 ++
    [(5, .deliver 0 false)]

/-- Only the first `n` processes can ever take a turn. -/
def State.Bounded (n : ℕ) (c : State) : Prop := ∀ j, n ≤ j → c.procs j = .done

theorem State.Bounded.after {n : ℕ} {c : State} {i : Pid} {a : Answer} {p : Proc} {f : Effect}
    (h : c.Bounded n) (hs : (c.procs i).step S i a c.world = some (p, f)) :
    (c.after i p f).Bounded n := by
  intro j hj
  have hji : j ≠ i := by
    rintro rfl
    rw [h j hj] at hs
    cases a <;> cases hs
  simpa only [State.after, Function.update_of_ne hji] using h j hj

theorem bounded_deployment (accounts : AccountId → Option Plan) (links : TeamId → Option AccountId)
    (procs : List Proc) : (deployment accounts links procs).Bounded procs.length := by
  intro j hj
  simp [deployment, hj]

theorem bounded_oneUpload (procs : List Proc) : (oneUpload procs).Bounded (procs.length + 3) := by
  intro j hj
  exact bounded_deployment _ _ (_ :: _ :: _ :: procs) j hj

/-- A schedule whose turns pass a check that, for a bounded number of processes, implies the
condition. -/
theorem exists_bounded_reach_of_check {ok : State → Pid → Answer → Prop} {n : ℕ}
    (check : State → Pid → Answer → Bool)
    (hcheck : ∀ (c : State) i a, c.Bounded n → check c i a = true → ok c i a) {c : State}
    (hc : Deployed c) (hb : c.Bounded n) (run : List (Pid × Answer)) (bad : State → Bool)
    (h : ((system S).exec (fun c i a => check c i a = true) c run).any bad = true) :
    ∃ c' : State, (system S).Reach Deployed ok c' ∧ c'.Bounded n ∧ bad c' = true := by
  have bounded {c' : State}
      (h : (system S).Reach (Eq c) (fun c i a => check c i a = true) c') :
      (system S).Reach Deployed ok c' ∧ c'.Bounded n := by
    induction h with
    | start h => exact h ▸ ⟨.start hc, hb⟩
    | next _ hok hn ih =>
      obtain ⟨hr, hb⟩ := ih
      obtain ⟨p, f, hs, rfl⟩ := next_eq_some.mp hn
      exact ⟨.next hr (hcheck _ _ _ hb hok) hn, hb.after hs⟩
  obtain ⟨c', hreach, hbad⟩ := Machine.exists_reach_of_exec (system S) _ (Eq.refl c) run bad h
  exact ⟨c', (bounded hreach).1, (bounded hreach).2, hbad⟩

theorem exists_reach_of_check {ok : State → Pid → Answer → Prop} {n : ℕ}
    (check : State → Pid → Answer → Bool)
    (hcheck : ∀ (c : State) i a, c.Bounded n → check c i a = true → ok c i a) {c : State}
    (hc : Deployed c) (hb : c.Bounded n) (run : List (Pid × Answer)) (bad : State → Bool)
    (h : ((system S).exec (fun c i a => check c i a = true) c run).any bad = true) :
    ∃ c', (system S).Reach Deployed ok c' ∧ bad c' = true := by
  obtain ⟨c', hr, -, hbad⟩ := exists_bounded_reach_of_check check hcheck hc hb run bad h
  exact ⟨c', hr, hbad⟩

end NextBallUp
