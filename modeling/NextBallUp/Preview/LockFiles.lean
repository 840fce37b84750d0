import NextBallUp.Lib.Interleaving
import NextBallUp.Lib.LockFiles
import NextBallUp.Preview.Rows

/-!
# Locks of the demo preview

`render_demo_preview_artifact` holds a lock of the machine and one of its video while it downloads,
runs two subprocesses and publishes what they have left; `queue_demo_preview_request` holds a third
one while it enqueues a task. The locks are files. One turn is one call of the file system.

A lock counts as stale 60 seconds after the time that the first subprocess may take. The second
subprocess and the download are not counted, and a contender breaks a stale lock in two calls.

## What is deliberately absent

Calls of the file system that fail for other reasons, the sweep that deletes the directories of
expired previews, and processes that are killed. What a process that was killed earlier has left
behind may be there in the beginning.

## Main definitions

* `LockPath`: the three kinds of locks
* `RenderDemoPreviewArtifact.step`, `AcquireDemoPreviewQueueLock.step`: the processes
* `State.Excludes`, `State.SparesOthers`: what the locks are for
* `BreaksLeftovers`: the condition on a turn

## Main results

* `locksExclude_of_reach`: **in every run of turns that satisfy the condition no two processes hold
  the same lock, and none removes a lock file that another one holds**
* `exists_not_excludes`: a preview that takes its time is joined by another one
-/

namespace NextBallUp.Preview

/-- The paths of the locks. -/
inductive LockPath
  /-- `.demo-preview.machine.lock` -/
  | machine
  /-- `.demo-preview.run.lock` -/
  | run (video : VideoId)
  /-- `.demo-preview.queue.lock` -/
  | queue (video : VideoId)
  deriving DecidableEq

/-- After how many seconds the contenders for a lock take it for stale. -/
def Settings.staleAfterSeconds (S : Settings) : LockPath → ℕ
  | .machine | .run _ => S.cvDemoTimeoutSeconds + 60
  | .queue _ => S.queueLockStaleAfterSeconds

/-! ### Processes

A point is named after what comes next. -/

namespace RenderDemoPreviewArtifact

inductive Pc
  | validate
  | acquireMachine (pc : Acquire)
  | acquireRun (pc : Acquire)
  | onStarted
  | downloadFile
  | startInference
  | inference
  | startCandidateTags
  | candidateTags
  | publish
  | releaseRun
  | releaseMachine
  deriving DecidableEq

end RenderDemoPreviewArtifact

/-- `acquire_demo_preview_queue_lock`, and its caller up to the release. -/
inductive AcquireDemoPreviewQueueLock.Pc
  | start
  | acquire (deadline : Time) (pc : Acquire)
  | holding
  deriving DecidableEq

inductive Locker
  | render (video : VideoId) (pc : RenderDemoPreviewArtifact.Pc)
  | queue (video : VideoId) (pc : AcquireDemoPreviewQueueLock.Pc)
  | clock
  | done
  deriving DecidableEq

/-- What the environment decides in a turn. -/
inductive LockAnswer
  | ok
  /-- What is called raises. -/
  | raises
  | seconds (n : ℕ)
  deriving DecidableEq

/-- What the processes share. -/
structure LockWorld where
  files : Directory LockPath Pid
  /-- The running subprocesses, and when each of them is killed. -/
  subprocesses : List (Pid × Time)
  now : Time

namespace LockWorld

/-- `subprocess.run` with a timeout. -/
def start (w : LockWorld) (pid : Pid) (timeout : ℕ) : LockWorld :=
  { w with subprocesses := (pid, w.now + timeout) :: w.subprocesses }

/-- A subprocess has ended, or has been killed when its time was over. -/
def finish (w : LockWorld) (pid : Pid) : LockWorld :=
  { w with subprocesses := w.subprocesses.filter fun s => s.1 ≠ pid }

def setFiles (w : LockWorld) (files : Directory LockPath Pid) : LockWorld :=
  { w with files := files }

def unlink (w : LockWorld) (k : LockPath) : LockWorld := w.setFiles (w.files.unlink k)

variable (w : LockWorld) (pid : Pid) (n : ℕ) (files : Directory LockPath Pid) (k : LockPath)

@[simp] theorem files_start : (w.start pid n).files = w.files := rfl

@[simp] theorem files_finish : (w.finish pid).files = w.files := rfl

@[simp] theorem files_setFiles : (w.setFiles files).files = files := rfl

@[simp] theorem files_unlink : (w.unlink k).files = w.files.unlink k := rfl

end LockWorld

variable (S : Settings) (pid : Pid) (a : LockAnswer) (w : LockWorld)

/-- One call of `_acquire_lock`, and what comes after it. -/
def acquireLock (k : LockPath) (next : Acquire.Next → Locker) (pc : Acquire) :
    Locker × LockWorld :=
  let t := pc.step w.files pid k w.now (S.staleAfterSeconds k)
  (next t.1, w.setFiles t.2)

/-- `render_demo_preview_artifact` -/
def RenderDemoPreviewArtifact.step (video : VideoId) : Pc → Locker × LockWorld
  | .validate =>
    if a = .raises then (.done, w) else (.render video (.acquireMachine (.create 1)), w)
  | .acquireMachine pc =>
    acquireLock S pid w .machine (fun
      | .more pc => .render video (.acquireMachine pc)
      | .acquired => .render video (.acquireRun (.create 1))
      | .conflict => .done) pc
  | .acquireRun pc =>
    acquireLock S pid w (.run video) (fun
      | .more pc => .render video (.acquireRun pc)
      | .acquired => .render video .onStarted
      -- `run_lock` is still `None`, and only the other lock is released.
      | .conflict => .render video .releaseMachine) pc
  | .onStarted =>
    (.render video (if a = .raises then .releaseRun else .downloadFile), w)
  | .downloadFile =>
    (.render video (if a = .raises then .releaseRun else .startInference), w)
  | .startInference =>
    if a = .raises then (.render video .releaseRun, w)
    else (.render video .inference, w.start pid S.cvDemoTimeoutSeconds)
  | .inference =>
    (.render video (if a = .raises then .releaseRun else .startCandidateTags), w.finish pid)
  | .startCandidateTags =>
    if S.alphaCandidateTagsEnabled = false then (.render video .publish, w)
    else if a = .raises then (.render video .releaseRun, w)
    else (.render video .candidateTags, w.start pid S.cvAlphaCandidateTimeoutSeconds)
  -- That the subprocess fails or is killed is no exception here.
  | .candidateTags =>
    (.render video (if a = .raises then .releaseRun else .publish), w.finish pid)
  | .publish => (.render video .releaseRun, w)
  | .releaseRun => (.render video .releaseMachine, w.unlink (.run video))
  | .releaseMachine => (.done, w.unlink .machine)

/-- `acquire_demo_preview_queue_lock`, and the release by its caller -/
def AcquireDemoPreviewQueueLock.step (video : VideoId) : Pc → Locker × LockWorld
  | .start => (.queue video (.acquire (w.now + 1) (.create 1)), w)
  | .acquire deadline pc =>
    acquireLock S pid w (.queue video) (fun
      | .more pc => .queue video (.acquire deadline pc)
      | .acquired => .queue video .holding
      | .conflict =>
        if deadline ≤ w.now then .done else .queue video (.acquire deadline (.create 1))) pc
  | .holding => (.done, w.unlink (.queue video))

/-- One turn of a process. No time passes beyond the end of a running subprocess. -/
def Locker.step (p : Locker) : Option (Locker × LockWorld) :=
  match p with
  | .render video pc => some (RenderDemoPreviewArtifact.step S pid a w video pc)
  | .queue video pc => some (AcquireDemoPreviewQueueLock.step S pid w video pc)
  | .clock =>
    match a with
    | .seconds n =>
      if w.subprocesses.all fun s => w.now + n ≤ s.2 then some (.clock, { w with now := w.now + n })
      else none
    | _ => none
  | .done => none

/-- The machine of the processes that take locks. -/
def lockSystem : Machine Pid LockAnswer Locker LockWorld where
  step pid a p w := p.step S pid a w

/-- A configuration of the machine. -/
abbrev LockState := Conf Pid Locker LockWorld

/-! ### Holding and contending -/

/-- The process holds the lock: it has created the file, and not unlinked the path since. -/
def Locker.Holds (k : LockPath) : Locker → Prop
  | .render video pc =>
    match pc with
    | .validate => False
    | .acquireMachine pc => k = .machine ∧ pc.IsStamp
    | .acquireRun pc => k = .machine ∨ k = .run video ∧ pc.IsStamp
    | .releaseMachine => k = .machine
    | _ => k = .machine ∨ k = .run video
  | .queue video pc =>
    match pc with
    | .start => False
    | .acquire _ pc => k = .queue video ∧ pc.IsStamp
    | .holding => k = .queue video
  | .clock | .done => False

/-- The lock that the process is about to acquire, and its next call. -/
def Locker.contends : Locker → Option (LockPath × Acquire)
  | .render _ (.acquireMachine pc) => some (.machine, pc)
  | .render video (.acquireRun pc) => some (.run video, pc)
  | .queue video (.acquire _ pc) => some (.queue video, pc)
  | _ => none

/-- No two processes hold the same lock. -/
def LockState.Excludes (c : LockState) : Prop :=
  ∀ k i j, (c.procs i).Holds k → (c.procs j).Holds k → i = j

/-- In this turn no lock file is removed that another process has created and still holds. -/
def LockState.SparesOthers (S : Settings) (c : LockState) (i : Pid) (a : LockAnswer) : Prop :=
  ∀ p' w', (c.procs i).step S i a c.world = some (p', w') → ∀ j k, j ≠ i →
    (c.procs j).Holds k → c.world.files.Marks j k → w'.files.Marks j k

/-- The condition on a turn: a file that is taken for stale is none that a running process has
created, and the file that is unlinked as stale is the one that has been looked at. -/
def BreaksLeftovers (S : Settings) (c : LockState) (i : Pid) (_ : LockAnswer) : Prop :=
  match (c.procs i).contends with
  | some (k, .check _) => ∀ f ∈ c.world.files.file k,
      S.staleAfterSeconds k < c.world.now - f.mtime → f.creator = none
  | some (k, .unlink _ seen) => ∀ f ∈ c.world.files.file k, f.inode = seen
  | _ => True

instance (c : LockState) (i : Pid) (a : LockAnswer) : Decidable (BreaksLeftovers S c i a) := by
  unfold BreaksLeftovers
  split <;> infer_instance

/-! ### What a turn does to the files -/

variable {S pid a w} {p p' : Locker} {w' : LockWorld} {k : LockPath} {base : LockPath → Prop}
  {next : Acquire.Next → Locker} {pc : Acquire} {c : LockState}

/-- The process is about to break the lock, having seen the file `inode`. -/
def Locker.Breaks (p : Locker) (k : LockPath) (inode : ℕ) : Prop :=
  ∃ left, p.contends = some (k, .unlink left inode)

/-- The process comes to hold no lock and to break none. -/
structure Locker.Yields (p p' : Locker) : Prop where
  holds : ∀ k, p'.Holds k → p.Holds k
  breaks : ∀ k inode, ¬ p'.Breaks k inode

/-- What a turn does to the files, and what the process holds after it. -/
inductive LockMove (S : Settings) (i : Pid) (w : LockWorld) (p p' : Locker) :
    Directory LockPath Pid → Prop
  | keep : p.Yields p' → LockMove S i w p p' w.files
  /-- It takes the file for stale. -/
  | stale {k : LockPath} {left : ℕ} {f : LockFile Pid} : p.contends = some (k, .check left) →
      w.files.file k = some f → S.staleAfterSeconds k < w.now - f.mtime →
      p'.contends = some (k, .unlink left f.inode) → (∀ k, p'.Holds k → p.Holds k) →
      LockMove S i w p p' w.files
  | create {k : LockPath} : w.files.file k = none → (∀ k', p'.Holds k' → p.Holds k' ∨ k' = k) →
      (∀ k inode, ¬ p'.Breaks k inode) → LockMove S i w p p' (w.files.create i k w.now)
  | touch (k : LockPath) (inode : ℕ) : p.Yields p' →
      LockMove S i w p p' (w.files.touch k inode w.now)
  | break {k : LockPath} {left seen : ℕ} : p.contends = some (k, .unlink left seen) →
      p.Yields p' → LockMove S i w p p' (w.files.unlink k)
  | release {k : LockPath} : p.Holds k → p.Yields p' → ¬ p'.Holds k →
      LockMove S i w p p' (w.files.unlink k)

/-- A process that contends for `k` while it holds the locks `base`. -/
structure Contention (k : LockPath) (base : LockPath → Prop) (next : Acquire.Next → Locker) :
    Prop where
  contends : ∀ pc, (next (.more pc)).contends = some (k, pc)
  holds : ∀ n k', (next n).Holds k' ↔ base k' ∨ k' = k ∧ n.Holds
  breaks : ∀ n k' inode, (next n).Breaks k' inode → ∃ left, n = .more (.unlink left inode)

theorem Contention.yields (h : Contention k base next) {n n' : Acquire.Next}
    (hn : n'.Holds → n.Holds) (hb : ∀ left inode, n' ≠ .more (.unlink left inode)) :
    (next n).Yields (next n') where
  holds k' hk := by
    rw [h.holds] at hk ⊢
    exact hk.imp_right fun hk => ⟨hk.1, hn hk.2⟩
  breaks k' inode hk := by
    obtain ⟨left, he⟩ := h.breaks _ _ _ hk
    exact hb left inode he

theorem Contention.step_moves (h : Contention k base next)
    (hs : acquireLock S pid w k next pc = (p', w')) :
    LockMove S pid w (next (.more pc)) p' w'.files := by
  obtain ⟨n, d, ht⟩ : ∃ n d, pc.step w.files pid k w.now (S.staleAfterSeconds k) = (n, d) :=
    ⟨_, _, rfl⟩
  simp only [acquireLock, ht] at hs
  cases hs
  rw [LockWorld.files_setFiles]
  cases Acquire.step_moves ht with
  | create left hf =>
    refine .create hf (fun k' hk => ?_) fun k' inode hb => ?_
    · rw [h.holds] at hk ⊢
      exact hk.imp .inl And.left
    · obtain ⟨_, he⟩ := h.breaks _ _ _ hb
      cases he
  | occupied left => exact .keep (h.yields id fun _ _ he => by cases he)
  | stale left hf hs =>
    refine .stale (h.contends _) hf hs (h.contends _) fun k' hk => ?_
    rw [h.holds] at hk ⊢
    exact hk
  | conflict left => exact .keep (h.yields False.elim fun _ _ he => by cases he)
  | unlink left seen hn hb => exact .break (h.contends _) (h.yields (fun hh => (hn hh).elim) hb)
  | stamp inode => exact .touch k inode (h.yields (fun _ => trivial) fun _ _ he => by cases he)

theorem not_breaks_of_contends (h : p.contends = none) (k : LockPath) (inode : ℕ) :
    ¬ p.Breaks k inode := by
  rintro ⟨left, hb⟩
  rw [h] at hb
  cases hb

theorem RenderDemoPreviewArtifact.contention_machine (video : VideoId) :
    Contention .machine (fun _ => False) (fun
      | .more pc => .render video (.acquireMachine pc)
      | .acquired => .render video (.acquireRun (.create 1))
      | .conflict => .done) where
  contends _ := rfl
  holds n k' := by cases n <;> simp [Locker.Holds, Acquire.Next.Holds, Acquire.IsStamp]
  breaks n k' inode hb := by
    obtain ⟨left, hb⟩ := hb
    cases n <;> cases hb
    exact ⟨left, rfl⟩

theorem RenderDemoPreviewArtifact.contention_run (video : VideoId) :
    Contention (.run video) (· = .machine) (fun
      | .more pc => .render video (.acquireRun pc)
      | .acquired => .render video .onStarted
      | .conflict => .render video .releaseMachine) where
  contends _ := rfl
  holds n k' := by cases n <;> simp [Locker.Holds, Acquire.Next.Holds]
  breaks n k' inode hb := by
    obtain ⟨left, hb⟩ := hb
    cases n <;> cases hb
    exact ⟨left, rfl⟩

theorem AcquireDemoPreviewQueueLock.contention (video : VideoId) (deadline now : Time) :
    Contention (.queue video) (fun _ => False) (fun
      | .more pc => .queue video (.acquire deadline pc)
      | .acquired => .queue video .holding
      | .conflict =>
        if deadline ≤ now then .done else .queue video (.acquire deadline (.create 1))) where
  contends _ := rfl
  holds n k' := by
    cases n with
    | conflict =>
      dsimp only
      split <;> simp [Locker.Holds, Acquire.Next.Holds, Acquire.IsStamp]
    | _ => simp [Locker.Holds, Acquire.Next.Holds]
  breaks n k' inode hb := by
    obtain ⟨left, hb⟩ := hb
    cases n with
    | more pc => cases hb; exact ⟨left, rfl⟩
    | acquired => cases hb
    | conflict => dsimp only at hb; split at hb <;> cases hb

/-- Between two stages of a preview the locks do not change. -/
theorem yields_of_contends (hh : ∀ k, p'.Holds k → p.Holds k) (hc : p'.contends = none) :
    p.Yields p' := ⟨hh, not_breaks_of_contends hc⟩

theorem RenderDemoPreviewArtifact.step_moves {video : VideoId} {pc : Pc}
    (h : step S pid a w video pc = (p', w')) :
    LockMove S pid w (.render video pc) p' w'.files := by
  cases pc with
  | acquireMachine pc => exact (contention_machine video).step_moves h
  | acquireRun pc => exact (contention_run video).step_moves h
  | releaseRun =>
    cases h
    exact .release (.inr rfl) (yields_of_contends (fun _ => .inl) rfl) fun hk => by cases hk
  | releaseMachine =>
    cases h
    exact .release rfl (yields_of_contends (fun _ => False.elim) rfl) id
  | validate =>
    simp only [step] at h
    split at h <;> cases h
    · exact .keep (yields_of_contends (fun _ => False.elim) rfl)
    · refine .keep ⟨fun k hk => hk.2.elim, ?_⟩
      rintro k inode ⟨left, hb⟩
      cases hb
  | startInference =>
    simp only [step] at h
    split at h <;> cases h <;> exact .keep (yields_of_contends (fun _ => id) rfl)
  | startCandidateTags =>
    simp only [step] at h
    split at h
    · cases h; exact .keep (yields_of_contends (fun _ => id) rfl)
    · split at h <;> cases h <;> exact .keep (yields_of_contends (fun _ => id) rfl)
  | publish => cases h; exact .keep (yields_of_contends (fun _ => id) rfl)
  | _ =>
    simp only [step] at h
    split at h <;> cases h <;> exact .keep (yields_of_contends (fun _ => id) rfl)

theorem AcquireDemoPreviewQueueLock.step_moves {video : VideoId} {pc : Pc}
    (h : step S pid w video pc = (p', w')) :
    LockMove S pid w (.queue video pc) p' w'.files := by
  cases pc with
  | start =>
    cases h
    refine .keep ⟨fun k hk => hk.2.elim, ?_⟩
    rintro k inode ⟨left, hb⟩
    cases hb
  | acquire deadline pc => exact (contention video deadline w.now).step_moves h
  | holding =>
    cases h
    exact .release rfl (yields_of_contends (fun _ => False.elim) rfl) id

/-- **What a turn does to the lock files.** -/
theorem Locker.step_moves (h : p.step S pid a w = some (p', w')) :
    LockMove S pid w p p' w'.files := by
  cases p with
  | render video pc => exact RenderDemoPreviewArtifact.step_moves (Option.some.inj h)
  | queue video pc => exact AcquireDemoPreviewQueueLock.step_moves (Option.some.inj h)
  | clock =>
    simp only [step] at h
    split at h
    · split at h <;> cases h
      exact .keep (yields_of_contends (fun _ => id) rfl)
    · cases h
  | done => cases h

/-! ### Runs -/

/-- The process has not taken a turn yet. -/
def Locker.IsFresh : Locker → Prop
  | .render _ pc => pc = .validate
  | .queue _ pc => pc = .start
  | .clock | .done => True

/-- Every process begins, and the lock files that there are have been left behind by others. -/
structure LockState.Deployed (c : LockState) : Prop where
  fresh : ∀ i, (c.procs i).IsFresh
  leftover : ∀ k f, c.world.files.file k = some f →
    f.creator = none ∧ f.inode < c.world.files.nextInode
  subprocesses : c.world.subprocesses = []

structure LockState.Sound (c : LockState) : Prop where
  guards : c.world.files.Guards fun i k => (c.procs i).Holds k
  numbered : c.world.files.Numbered
  /-- What has been taken for stale was a leftover. -/
  seen : ∀ i k inode, (c.procs i).Breaks k inode → c.world.files.Abandoned k inode

theorem Locker.IsFresh.not_holds (h : p.IsFresh) (k : LockPath) : ¬ p.Holds k := by
  cases p with
  | render video pc => cases h; exact id
  | queue video pc => cases h; exact id
  | _ => exact id

theorem Locker.IsFresh.contends (h : p.IsFresh) : p.contends = none := by
  cases p with
  | render video pc => cases h; rfl
  | queue video pc => cases h; rfl
  | _ => rfl

theorem LockState.Deployed.sound (h : c.Deployed) : c.Sound where
  guards i k hk := ((h.fresh i).not_holds k hk).elim
  numbered k f hf := (h.leftover k f hf).2
  seen i k inode hb := (not_breaks_of_contends (h.fresh i).contends k inode hb).elim

/-- The state after a turn of process `i`. -/
def LockState.after (c : LockState) (i : Pid) (p' : Locker) (w' : LockWorld) : LockState :=
  ⟨Function.update c.procs i p', w'⟩

section After

variable {i j : Pid}

@[simp] theorem LockState.world_after : (c.after i p' w').world = w' := rfl

@[simp] theorem LockState.procs_after : (c.after i p' w').procs i = p' := Function.update_self ..

theorem LockState.procs_after_of_ne (h : j ≠ i) : (c.after i p' w').procs j = c.procs j :=
  Function.update_of_ne h ..

theorem LockState.holds_after {q : LockPath → Prop}
    (hh : ∀ k, p'.Holds k → (c.procs i).Holds k ∨ q k)
    (hj : ((c.after i p' w').procs j).Holds k) : (c.procs j).Holds k ∨ j = i ∧ q k := by
  by_cases h : j = i
  · subst h
    rw [procs_after] at hj
    exact (hh k hj).imp_right fun hq => ⟨rfl, hq⟩
  · rw [procs_after_of_ne h] at hj
    exact .inl hj

theorem LockState.holds_after_of_yields (hh : ∀ k, p'.Holds k → (c.procs i).Holds k)
    (hj : ((c.after i p' w').procs j).Holds k) : (c.procs j).Holds k :=
  (holds_after (q := fun _ => False) (fun k hk => .inl (hh k hk)) hj).resolve_right And.right

/-- Nobody holds a lock whose file is a leftover. -/
theorem LockState.Sound.not_holds (h : c.Sound)
    (hk : ∀ f, c.world.files.file k = some f → f.creator = none) : ¬ (c.procs j).Holds k := by
  intro hj
  obtain ⟨f, hf, hc⟩ := h.guards j k hj
  rw [hk f hf] at hc
  cases hc

/-- Under the condition, a file that is unlinked as stale is a leftover. -/
theorem LockState.Sound.leftover (h : c.Sound) {left seen : ℕ}
    (hok : BreaksLeftovers S c i a) (hc : (c.procs i).contends = some (k, .unlink left seen))
    (f : LockFile Pid) (hf : c.world.files.file k = some f) : f.creator = none := by
  simp only [BreaksLeftovers, hc] at hok
  exact (h.seen i k seen ⟨left, hc⟩).2 f hf (hok f hf)

theorem LockState.Sound.guards_after (h : c.Sound) (hok : BreaksLeftovers S c i a)
    (hm : LockMove S i c.world (c.procs i) p' w'.files) :
    w'.files.Guards fun j k => ((c.after i p' w').procs j).Holds k := by
  generalize hd : w'.files = d at hm
  cases hm with
  | keep hy => exact fun j k hj => h.guards j k (holds_after_of_yields hy.holds hj)
  | stale _ _ _ _ hh => exact fun j k hj => h.guards j k (holds_after_of_yields hh hj)
  | create hf hh _ => exact h.guards.create hf fun j k' hj => holds_after (hh · ·) hj
  | touch k inode hy => exact h.guards.touch fun j k' hj => holds_after_of_yields hy.holds hj
  | «break» hc hy =>
    refine h.guards.unlink fun j k' hj => ?_
    have hj' := holds_after_of_yields hy.holds hj
    refine ⟨hj', ?_⟩
    rintro rfl
    exact h.not_holds (h.leftover hok hc) hj'
  | release hk hy hn =>
    refine h.guards.unlink fun j k' hj => ?_
    have hj' := holds_after_of_yields hy.holds hj
    refine ⟨hj', ?_⟩
    rintro rfl
    -- Nobody else holds the lock, and the process itself does so no more.
    have he := h.guards.exclusive hj' hk
    subst he
    rw [procs_after] at hj
    exact hn hj

theorem LockMove.extends {d : Directory LockPath Pid} (h : LockMove S pid w p p' d) :
    w.files.Extends d := by
  cases h with
  | keep | stale => exact .refl _
  | create => exact Directory.extends_create
  | touch => exact Directory.extends_touch
  | «break» | release => exact Directory.extends_unlink

/-- A process that is about to break a lock has just taken its file for stale. -/
theorem LockMove.breaks {d : Directory LockPath Pid} {inode : ℕ} (h : LockMove S pid w p p' d)
    (hb : p'.Breaks k inode) : ∃ left f, p.contends = some (k, .check left) ∧
      w.files.file k = some f ∧ S.staleAfterSeconds k < w.now - f.mtime ∧ f.inode = inode := by
  cases h with
  | @stale k' left f hc hf hs hc' =>
    obtain ⟨left', hb⟩ := hb
    rw [hc'] at hb
    cases hb
    exact ⟨left, f, hc, hf, hs, rfl⟩
  | create _ _ hn => exact (hn _ _ hb).elim
  | keep hy | touch _ _ hy | «break» _ hy | release _ hy => exact (hy.breaks _ _ hb).elim

/-- **A turn that satisfies the condition.** -/
theorem LockState.Sound.after (h : c.Sound) (hok : BreaksLeftovers S c i a)
    (hs : (c.procs i).step S i a c.world = some (p', w')) : (c.after i p' w').Sound where
  guards := h.guards_after hok (Locker.step_moves hs)
  numbered := h.numbered.extends (Locker.step_moves hs).extends
  seen j k inode hb := by
    have hm := Locker.step_moves hs
    by_cases hj : j = i
    · subst hj
      rw [procs_after] at hb
      obtain ⟨left, f, hc, hf, hst, rfl⟩ := hm.breaks hb
      simp only [BreaksLeftovers, hc] at hok
      refine Directory.Abandoned.extends ⟨h.numbered k f hf, fun f' hf' _ => ?_⟩ hm.extends
      rw [hf] at hf'
      cases hf'
      exact hok f hf hst
    · rw [procs_after_of_ne hj] at hb
      exact (h.seen j k inode hb).extends hm.extends

end After

theorem sound_of_reach (h : (lockSystem S).Reach LockState.Deployed (BreaksLeftovers S) c) :
    c.Sound := by
  refine h.invariant (fun _ => LockState.Deployed.sound) ?_
  intro c c' i a hc hok hn
  obtain ⟨p', w', hs, rfl⟩ := Machine.next_eq_some.mp hn
  exact hc.after hok hs

/-- **The locks exclude, as long as a lock is only broken if a process has left it behind.** -/
theorem locksExclude_of_reach
    (h : (lockSystem S).Reach LockState.Deployed (BreaksLeftovers S) c) :
    c.Excludes ∧ ∀ i a, BreaksLeftovers S c i a → c.SparesOthers S i a := by
  have hc := sound_of_reach h
  refine ⟨fun k i j hi hj => hc.guards.exclusive hi hj, ?_⟩
  intro i a hok p' w' hs j k hj hk _
  -- The other process is where it was, so it still holds the lock and its file is still there.
  refine (hc.after hok hs).guards j k ?_
  show Locker.Holds k ((c.after i p' w').procs j)
  rw [LockState.procs_after_of_ne hj]
  exact hk

/-! ### Two runs -/

instance (p : Locker) (k : LockPath) : Decidable (p.Holds k) := by
  unfold Locker.Holds
  split
  · split <;> infer_instance
  · split <;> infer_instance
  all_goals exact inferInstanceAs (Decidable False)

/-- Previews of two videos, and the clock. -/
def twoPreviews (machineLock : Option (LockFile Pid)) (now : Time) : LockState where
  procs
    | 0 => .render 0 .validate
    | 1 => .render 1 .validate
    | 2 => .clock
    | _ => .done
  world :=
    { files := ⟨fun k => if k = .machine then machineLock else none, 1⟩
      subprocesses := []
      now := now }

theorem deployed_twoPreviews (machineLock : Option (LockFile Pid)) (now : Time)
    (h : ∀ f ∈ machineLock, f.creator = none ∧ f.inode = 0) :
    (twoPreviews machineLock now).Deployed where
  fresh i := by
    unfold twoPreviews
    dsimp only
    split
    · rfl
    · rfl
    all_goals exact trivial
  leftover k f hf := by
    simp only [twoPreviews] at hf ⊢
    split at hf
    · obtain ⟨hc, hi⟩ := h f hf
      exact ⟨hc, hi ▸ Nat.zero_lt_one⟩
    · cases hf
  subprocesses := rfl

/-- **A leftover is broken.** The first preview breaks a lock that was left behind, and the second
one is about to look at the age of the new lock. -/
theorem exists_excludes :
    ∃ c : LockState, (c.Excludes ∧ c.SparesOthers .alpha 1 .ok) ∧
      (c.procs 0).Holds .machine ∧ (c.procs 0).Holds (.run 0) ∧
      (c.procs 1).contends = some (.machine, .check 1) := by
  obtain ⟨c, hc, hb⟩ := Machine.exists_reach_of_exec (lockSystem .alpha)
    (BreaksLeftovers .alpha)
    (deployed_twoPreviews (some ⟨0, none, 0⟩) 5000 (by simp))
    (List.replicate 8 (0, .ok) ++ List.replicate 2 (1, .ok))
    (fun c => decide (BreaksLeftovers .alpha c 1 .ok) && ((c.procs 0).Holds .machine &&
      ((c.procs 0).Holds (.run 0) && (c.procs 1).contends = some (.machine, .check 1))))
    (by decide +kernel)
  simp only [Bool.and_eq_true, decide_eq_true_eq] at hb
  obtain ⟨hok, h⟩ := hb
  exact ⟨c, (locksExclude_of_reach hc).imp_right fun h => h 1 .ok hok, h⟩

/-- **Two previews on one machine.** The candidate tags of the first preview are still being
computed when its lock becomes stale. -/
theorem exists_not_excludes :
    ∃ c : LockState, (lockSystem .alpha).Reach LockState.Deployed Machine.Always c ∧
      ¬ c.Excludes := by
  obtain ⟨c, hc, hb⟩ := Machine.exists_reach_of_exec (lockSystem .alpha) Machine.Always
    (deployed_twoPreviews none 0 (by simp))
    (List.replicate 8 (0, .ok) ++ [(2, .seconds 1800), (0, .ok), (0, .ok), (2, .seconds 61)] ++
      List.replicate 5 (1, .ok))
    (fun c => (c.procs 0).Holds .machine && (c.procs 1).Holds .machine) (by decide +kernel)
  simp only [Bool.and_eq_true, decide_eq_true_eq] at hb
  exact ⟨c, hc, fun h => Nat.zero_ne_one (h .machine 0 1 hb.1 hb.2)⟩

end NextBallUp.Preview
