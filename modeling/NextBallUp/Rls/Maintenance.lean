import NextBallUp.Maintenance
import NextBallUp.Rls.Requests
import Mathlib.Data.List.Nodup

/-!
# Maintenance under the policies

The passes of `runtime/cleanup.py` that go over rows of every tenant or of every user, as the
runtime role runs them. The statements are those of `NextBallUp.Maintenance`; what is new is which
rows they meet.

Three of the passes lock the rows they select. They bind the role of an operator first, and the team
of a row only once they have the row. A row of a team can be locked only by a session that has bound
the team, so that they never have a row. The pass over the e-mail verification tokens deletes as an
operator, but no operator can read a token. Only the pass over the password reset tokens, whose
policies came later, does its work.

## What is deliberately absent

`cleanup_abandoned_uploads`, which locks no rows, and `cleanup_expired_csp_reports`, which calls a
function of the owner. The clock stands still during a pass.

## Main definitions

* `recoverStaleJobs`, `cleanupExpiredRawVideos`, `retryRawVideoStorageDeletes`,
  `cleanupEmailVerificationTokens`, `cleanupPasswordResetTokens`: the passes
* `ActsExactly`: each of them acts on the rows it names

## Main results

* `recoverStaleJobs_eq`, `deleteRawObjects_eq`: the passes that lock find nothing
* `cleanupEmailVerificationTokens_eq`, `cleanupPasswordResetTokens_eq`: what the passes over tokens
  delete
* `actsExactly_iff`: the passes act on the rows they name exactly when four of them name none
-/

namespace NextBallUp.Rls

open RowSecurity

section Passes

variable (c : Catalog TableName PolicyName Clause) (S : NextBallUp.Settings) (now : Time)

/-- `set_worker_operator_role` -/
def setWorkerOperatorRole : Request Unit := setUserRoleContext (some .admin)

/-- `set_worker_context` -/
def setWorkerContext (teamId : TeamId) : Request Unit := do
  setWorkerOperatorRole
  setTenantContext (some teamId)

/-- `clear_worker_context` -/
def clearWorkerContext : Request Unit := do
  setTenantContext none
  setUserRoleContext none

/-- `write_worker_audit` -/
def writeWorkerAudit (action : AuditAction) (teamId : Option TeamId) : Request Unit := do
  match teamId with
  | some id => setWorkerContext id
  | none => setWorkerOperatorRole
  writeAudit c action none teamId

def updateJob (id : JobId) (u : Update ProcessingJob) : Request (List JobRow) :=
  update c .processingJobs (fun r => r.id = id && u.cond r.row) fun r =>
    { r with row := u.set r.row }

def updateVideo (id : VideoId) (u : Update Video) : Request (List VideoRow) :=
  update c .videos (fun r => r.id = id && u.cond r.row) fun r => { r with row := u.set r.row }

/-! ### Stale jobs -/

/-- The `WHERE` clause of `recover_stale_jobs`. -/
def isStaleJob (r : JobRow) : Bool :=
  r.row.status = .running && RecoverStaleJobs.isStale S now r.row

/-- One turn of the loop of `recover_stale_jobs`. -/
def recoverStaleJob (job : JobRow) : Request JobId := do
  setWorkerContext job.teamId
  let _ ← updateJob c job.id (failJob .processingStaleRecovered "heartbeat stale"
    (some ((job.row.resultMetadata.getD []).set .staleSince
      ((job.row.heartbeatAt.map MetaValue.time).getD .null))) now)
  let _ ← updateVideo c job.id.videoId (setVideoStatus .failed [.processing, .queued])
  writeWorkerAudit c (.pipeline .videoProcessingRecoveredStale) (some job.teamId)
  commit
  return job.id

def recoverStaleJobs : Request (List JobId) := do
  setWorkerOperatorRole
  let rows ← selectForUpdate c .processingJobs (isStaleJob S now)
  let recovered ← rows.mapM (recoverStaleJob c now)
  clearWorkerContext
  return recovered

/-! ### Raw objects -/

/-- The `WHERE` clauses of `cleanup_expired_raw_videos` and of `retry_raw_video_storage_deletes`. -/
def isRawSelected (pass : RawPass) (r : VideoRow) : Bool :=
  r.row.storageKeyRaw.isSome && r.row.rawStorageDeletedAt.isNone &&
    match pass with
    | .expired =>
      (r.row.rawRetentionExpiresAt.any fun t => t ≤ now) &&
        (r.row.status = .processed || r.row.status = .failed)
    | .retry => r.row.rawDeleteRequestedAt.isSome

/-- One turn of the two loops. The storage says of a key whether deleting it returns. -/
def deleteRawObject (pass : RawPass) (storage : StorageKey → Bool) (video : VideoRow) :
    Request (Option VideoId) := do
  setWorkerContext video.row.teamId
  if pass = .expired then
    let _ ← updateVideo c video.id (RawDeletes.unlessDeleted fun r => { r with
      rawDeleteRequestedAt := some now
      rawDeleteFailedAt := none
      rawDeleteReason := some .retentionExpired })
    commit
    setWorkerContext video.row.teamId
  if video.row.storageKeyRaw.any storage then
    let _ ← updateVideo c video.id (RawDeletes.unlessDeleted fun r => { r with
      storageKeyRaw := none
      rawStorageDeletedAt := some now
      rawDeletedAt := some now
      rawDeleteFailedAt := none })
    writeWorkerAudit c (.pipeline .videoRawObjectDeleted) (some video.row.teamId)
    commit
    return some video.id
  else
    writeWorkerAudit c (.pipeline .videoRawObjectDeleteFailed) (some video.row.teamId)
    let _ ← updateVideo c video.id (RawDeletes.unlessDeleted fun r => { r with
      rawDeleteFailedAt := some now })
    commit
    return none

/-- The body of the two passes. Without storage they return at once. -/
def deleteRawObjects (pass : RawPass) : Option (StorageKey → Bool) → Request (List VideoId)
  | none => return []
  | some storage => do
    setWorkerOperatorRole
    let rows ← selectForUpdate c .videos (isRawSelected now pass)
    let deleted ← (rows.take S.rawVideoRetentionCleanupBatchSize).filterMapM
      (deleteRawObject c now pass storage)
    clearWorkerContext
    return deleted

def cleanupExpiredRawVideos := deleteRawObjects c S now .expired

def retryRawVideoStorageDeletes := deleteRawObjects c S now .retry

/-! ### Tokens -/

/-- The `WHERE` clause of the two queries for tokens. -/
def isPrunable (r : AccountToken) : Bool := r.usedAt.isSome || r.expiresAt < now

/-- The body of the two passes. The ids are those of a subquery of the `DELETE`. -/
def pruneTokens (t : TableOf AccountToken) (action : AuditAction) : Request ℕ := do
  setWorkerOperatorRole
  let stale ← select c t (isPrunable now)
  let staleIds := (stale.take 1000).map AccountToken.id
  let rows ← delete c t fun r => r.id ∈ staleIds
  if rows.length ≠ 0 then
    writeWorkerAudit c action none
  commit
  return rows.length

def cleanupEmailVerificationTokens :=
  pruneTokens c now .emailVerificationTokens .userEmailVerificationTokensPruned

def cleanupPasswordResetTokens :=
  pruneTokens c now .passwordResetTokens .userPasswordResetTokensPruned

end Passes

/-! ### What the passes do -/

variable {S : NextBallUp.Settings} {now : Time} {db : Database}

/-- The connection of a pass that has bound the role of an operator. -/
def operator (db : Database) : Transaction.Session Database Settings where
  committed := db
  working := db
  settings := { Settings.unset with currentUserRole := some .admin }

theorem setWorkerOperatorRole_bind {α : Type} (f : Unit → Request α) :
    (setWorkerOperatorRole >>= f) (fresh db) = f () (operator db) := rfl

/-- **Recovery finds no job.** -/
theorem recoverStaleJobs_eq :
    recoverStaleJobs installed S now (fresh db) = (.ok [], fresh db) := by
  rw [recoverStaleJobs, setWorkerOperatorRole_bind,
    Transaction.bind_ok (selectForUpdate_teamTable (by decide) rfl)]
  rfl

-- The owner of the tables, whom no policy keeps from the row, does recover the job.
example : (recoverStaleJobs unguarded .default 86400 (fresh { Database.empty with
    processingJobs := [⟨⟨0, .transcode⟩, 0, { ProcessingJob.new 0 with
      status := .running
      heartbeatAt := some 0 }⟩] })).1.toOption = some [⟨0, .transcode⟩] := by
  decide +kernel

/-- **Neither pass finds a raw object.** -/
theorem deleteRawObjects_eq (pass : RawPass) (storage : Option (StorageKey → Bool)) :
    deleteRawObjects installed S now pass storage (fresh db) = (.ok [], fresh db) := by
  cases storage with
  | none => rfl
  | some storage =>
    rw [deleteRawObjects, setWorkerOperatorRole_bind,
      Transaction.bind_ok (selectForUpdate_teamTable (by decide) rfl), List.take_nil]
    rfl

/-- No operator can read an e-mail verification token. -/
theorem not_admits_select_email {s : Settings} (hu : s.currentUserId = none)
    (ht : s.currentEmailVerificationTokenHash = none) (r : AccountToken) :
    (installed .emailVerificationTokens).admits (holdsIn s db) .select r = false := by
  rw [installed_eq .emailVerificationTokens (by decide), guardOf]
  simp [Guard.admits, crud, Policy.appliesTo, emailTokenAccess, holdsIn, Clause.holds,
    Setting.value, HasColumns.column, hu, ht]

/-- **The pass over the e-mail verification tokens deletes none.** -/
theorem cleanupEmailVerificationTokens_eq :
    cleanupEmailVerificationTokens installed now (fresh db) = (.ok 0, fresh db) := by
  have hselect : select installed .emailVerificationTokens (isPrunable now) (operator db) =
      (.ok [], operator db) :=
    select_ok (Guard.select_eq_nil (by decide +kernel) fun r _ _ =>
      not_admits_select_email rfl rfl r)
  have hdelete (p : AccountToken → Bool) :
      delete installed .emailVerificationTokens p (operator db) = (.ok [], operator db) :=
    delete_ok rfl (Guard.delete_eq_self (by decide +kernel) fun r _ =>
      Guard.reaches_eq_false (.inl (not_admits_select_email rfl rfl r)))
  rw [cleanupEmailVerificationTokens, pruneTokens, setWorkerOperatorRole_bind,
    Transaction.bind_ok hselect, Transaction.bind_ok (hdelete _)]
  rfl

/-- An operator reads and deletes every password reset token. -/
theorem admits_reset {s : Settings} (hs : s.currentUserRole = some .admin) {cmd : Command}
    (hcmd : cmd = .select ∨ cmd = .delete) (r : AccountToken) :
    (installed .passwordResetTokens).admits (holdsIn s db) cmd r = true := by
  rw [installed_eq .passwordResetTokens (by decide), guardOf]
  rcases hcmd with rfl | rfl <;>
    simp [Guard.admits, crud, Policy.appliesTo, holdsIn, Clause.holds, hs]

theorem writeWorkerAudit_none (action : AuditAction)
    {s : Transaction.Session Database Settings} :
    writeWorkerAudit installed action none s = (.ok (), { s with
      working := { s.working with
        auditLogs := s.working.auditLogs ++ [⟨action, none, none⟩] }
      settings := { s.settings with currentUserRole := some .admin } }) := by
  rw [writeWorkerAudit, setWorkerOperatorRole, setUserRoleContext, Transaction.set_bind]
  exact writeAudit_none action none

/-- **The pass over the password reset tokens deletes what it names.** -/
theorem cleanupPasswordResetTokens_eq (hids : (db.passwordResetTokens.map AccountToken.id).Nodup)
    (hlimit : (db.passwordResetTokens.filter (isPrunable now)).length ≤ 1000) :
    ∃ auditLogs, cleanupPasswordResetTokens installed now (fresh db) =
      (.ok (db.passwordResetTokens.filter (isPrunable now)).length, fresh { db with
        passwordResetTokens := db.passwordResetTokens.filter fun r => !isPrunable now r
        auditLogs := auditLogs }) := by
  have hselect : select installed .passwordResetTokens (isPrunable now) (operator db) =
      (.ok (db.passwordResetTokens.filter (isPrunable now)), operator db) :=
    select_ok (Guard.select_eq_filter (by decide +kernel) fun r _ _ =>
      admits_reset rfl (.inl rfl) r)
  -- Membership in the list of ids is what the subquery asks.
  have hnamed : ∀ r ∈ db.passwordResetTokens, decide (r.id ∈
      ((db.passwordResetTokens.filter (isPrunable now)).take 1000).map AccountToken.id) =
      isPrunable now r := by
    intro r hr
    rw [Bool.eq_iff_iff, decide_eq_true_iff, List.take_of_length_le hlimit, List.mem_map]
    constructor
    · rintro ⟨r', hr', heq⟩
      rw [List.mem_filter] at hr'
      rw [← List.inj_on_of_nodup_map hids hr'.1 hr heq]
      exact hr'.2
    · exact fun hp => ⟨r, List.mem_filter.mpr ⟨hr, hp⟩, rfl⟩
  have hdelete (p : AccountToken → Bool)
      (hp : ∀ r ∈ db.passwordResetTokens, p r = isPrunable now r) :
      delete installed .passwordResetTokens p (operator db) =
        (.ok (db.passwordResetTokens.filter (isPrunable now)),
          { operator db with working := { db with
              passwordResetTokens :=
                db.passwordResetTokens.filter fun r => !isPrunable now r } }) := by
    refine delete_ok rfl ((Guard.delete_eq_filter (by decide +kernel) fun r _ _ =>
      ⟨admits_reset rfl (.inl rfl) r, admits_reset rfl (.inr rfl) r⟩).trans ?_)
    exact congrArg _ (Prod.ext (List.filter_congr fun r hr => congrArg _ (hp r hr))
      (List.filter_congr hp))
  rw [cleanupPasswordResetTokens, pruneTokens, setWorkerOperatorRole_bind,
    Transaction.bind_ok hselect, Transaction.bind_ok (hdelete _ hnamed)]
  split
  · exact ⟨_, Transaction.bind_ok (writeWorkerAudit_none _)⟩
  · exact ⟨_, rfl⟩

/-! ### The rows a pass names -/

/-- The pass returns the keys of the named rows that it is done with, and leaves every row alone
that is not named. -/
def ActsOn {R K : Type} (t : TableOf R) (key : R → K) (named done : R → Bool)
    (pass : Request (List K)) (db : Database) : Prop :=
  (pass (fresh db)).1 = .ok (((t.rows db).filter fun r => named r && done r).map key) ∧
    ∀ r ∈ t.rows db, named r = false → r ∈ t.rows (pass.result (fresh db))

/-- The pass deletes the named rows and no other, and says how many they were. -/
def Prunes {R : Type} (t : TableOf R) (named : R → Bool) (pass : Request ℕ) (db : Database) :
    Prop :=
  (pass (fresh db)).1 = .ok ((t.rows db).filter named).length ∧
    t.rows (pass.result (fresh db)) = (t.rows db).filter fun r => !named r

/-- **Each pass acts on the rows that its query names.** A raw object is done with when the storage
has deleted it. -/
structure ActsExactly (c : Catalog TableName PolicyName Clause) (S : NextBallUp.Settings)
    (now : Time) (db : Database) : Prop where
  recoverStaleJobs : ActsOn .processingJobs JobRow.id (isStaleJob S now) (fun _ => true)
    (recoverStaleJobs c S now) db
  cleanupExpiredRawVideos : ∀ storage, ActsOn .videos VideoRow.id (isRawSelected now .expired)
    (fun r => r.row.storageKeyRaw.any storage) (cleanupExpiredRawVideos c S now (some storage)) db
  retryRawVideoStorageDeletes : ∀ storage, ActsOn .videos VideoRow.id (isRawSelected now .retry)
    (fun r => r.row.storageKeyRaw.any storage)
    (retryRawVideoStorageDeletes c S now (some storage)) db
  cleanupEmailVerificationTokens : Prunes .emailVerificationTokens (isPrunable now)
    (cleanupEmailVerificationTokens c now) db
  cleanupPasswordResetTokens : Prunes .passwordResetTokens (isPrunable now)
    (cleanupPasswordResetTokens c now) db

/-- A pass that does nothing acts on the rows it names exactly when it is done with none of them. -/
theorem actsOn_iff_of_eq {R K : Type} {t : TableOf R} {key : R → K} {named done : R → Bool}
    {pass : Request (List K)} (h : pass (fresh db) = (.ok [], fresh db)) :
    ActsOn t key named done pass db ↔ ∀ r ∈ t.rows db, named r = true → done r = false := by
  have hresult : pass.result (fresh db) = db := by rw [Transaction.result, h]; rfl
  rw [ActsOn, hresult, h]
  constructor
  · rintro ⟨hnone, -⟩ r hr hnamed
    injection hnone with hnone
    have := List.filter_eq_nil_iff.mp (List.map_eq_nil_iff.mp hnone.symm) r hr
    simpa [hnamed] using this
  · intro hnone
    refine ⟨?_, fun r hr _ => hr⟩
    rw [List.filter_eq_nil_iff.mpr, List.map_nil]
    intro r hr hboth
    rw [Bool.and_eq_true] at hboth
    rw [hnone r hr hboth.1] at hboth
    cases hboth.2

theorem prunes_iff_of_eq {R : Type} {t : TableOf R} {named : R → Bool} {pass : Request ℕ}
    (h : pass (fresh db) = (.ok 0, fresh db)) :
    Prunes t named pass db ↔ ∀ r ∈ t.rows db, named r = false := by
  have hresult : pass.result (fresh db) = db := by rw [Transaction.result, h]; rfl
  rw [Prunes, hresult, h]
  constructor
  · rintro ⟨hnone, -⟩ r hr
    injection hnone with hnone
    simpa using List.filter_eq_nil_iff.mp (List.length_eq_zero_iff.mp hnone.symm) r hr
  · intro hnone
    constructor
    · rw [List.filter_eq_nil_iff.mpr fun r hr => by simp [hnone r hr], List.length_nil]
    · exact (List.filter_eq_self.mpr fun r hr => by simp [hnone r hr]).symm

/-- **The maintenance passes under the policies.** They act on exactly the rows that their queries
name if and only if no job is stale, no raw object is to be deleted, and no e-mail verification
token has been used or has expired. -/
theorem actsExactly_iff (S : NextBallUp.Settings) (now : Time)
    (hids : (db.passwordResetTokens.map AccountToken.id).Nodup)
    (hlimit : (db.passwordResetTokens.filter (isPrunable now)).length ≤ 1000) :
    ActsExactly installed S now db ↔
      (∀ r ∈ db.processingJobs, isStaleJob S now r = false) ∧
      (∀ r ∈ db.videos, isRawSelected now .expired r = false ∧ isRawSelected now .retry r = false) ∧
      ∀ r ∈ db.emailVerificationTokens, isPrunable now r = false := by
  have hraw (pass : RawPass) : (∀ storage : StorageKey → Bool, ActsOn .videos VideoRow.id
      (isRawSelected now pass) (fun r => r.row.storageKeyRaw.any storage)
      (deleteRawObjects installed S now pass (some storage)) db) ↔
        ∀ r ∈ db.videos, isRawSelected now pass r = false := by
    simp only [actsOn_iff_of_eq (deleteRawObjects_eq pass _)]
    constructor
    · intro h r hr
      by_contra hnamed
      have := h (fun _ => true) r hr (by simpa using hnamed)
      simp_all [isRawSelected]
    · intro h storage r hr hnamed
      exact absurd hnamed (by simp [h r hr])
  constructor
  · intro h
    refine ⟨fun r hr => ?_, fun r hr => ⟨?_, ?_⟩, ?_⟩
    · by_contra hnamed
      simpa using (actsOn_iff_of_eq recoverStaleJobs_eq).mp h.recoverStaleJobs r hr
        (by simpa using hnamed)
    · exact (hraw .expired).mp h.cleanupExpiredRawVideos r hr
    · exact (hraw .retry).mp h.retryRawVideoStorageDeletes r hr
    · exact (prunes_iff_of_eq cleanupEmailVerificationTokens_eq).mp h.cleanupEmailVerificationTokens
  · rintro ⟨hstale, hvideos, hemail⟩
    refine ⟨?_, ?_, ?_, ?_, ?_⟩
    · refine (actsOn_iff_of_eq recoverStaleJobs_eq).mpr fun r hr hnamed => ?_
      exact absurd hnamed (by simp [hstale r hr])
    · exact (hraw .expired).mpr fun r hr => (hvideos r hr).1
    · exact (hraw .retry).mpr fun r hr => (hvideos r hr).2
    · exact (prunes_iff_of_eq cleanupEmailVerificationTokens_eq).mpr hemail
    · obtain ⟨auditLogs, heq⟩ := cleanupPasswordResetTokens_eq hids hlimit
      rw [Prunes, Transaction.result, heq]
      exact ⟨rfl, rfl⟩

/-- A team, a job of it that is running and whose heartbeat is at 0, and a used token. -/
def withJob (now : Time) : Database :=
  { Database.empty with
    teams := [⟨0, "TEAM", true, none⟩]
    teamVisibility := [(0, none)]
    processingJobs := [⟨⟨0, .transcode⟩, 0, { ProcessingJob.new 0 with
      status := .running
      startedAt := some 0
      heartbeatAt := some now }⟩]
    passwordResetTokens := [⟨0, 0, "hash", 3600, some now, none, none, none⟩] }

/-- While the heart of the job beats, the passes do what they are to do. -/
theorem exists_actsExactly : ∃ now db, db.processingJobs ≠ [] ∧
    (∃ r ∈ db.passwordResetTokens, isPrunable now r = true) ∧
    ActsExactly installed .default now db := by
  refine ⟨10, withJob 10, by decide, by decide, (actsExactly_iff .default 10 (by decide)
    (by decide)).mpr ?_⟩
  decide

/-- The heartbeat is a day old, and the job stays as it is. -/
theorem exists_not_actsExactly : ∃ now db, (∀ r ∈ db.teams, r.deletedAt = none) ∧
    (∃ r ∈ db.processingJobs, isStaleJob .default now r = true) ∧
    ¬ ActsExactly installed .default now db := by
  refine ⟨86400, withJob 0, by decide, by decide, fun h => ?_⟩
  have hreturned := h.recoverStaleJobs.1
  rw [recoverStaleJobs_eq] at hreturned
  injection hreturned with hreturned
  revert hreturned
  decide

end NextBallUp.Rls
