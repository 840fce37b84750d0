import NextBallUp.Rls.Migrations

/-!
# Requests under the policies

Programs that run over one connection of the runtime role. Every statement is guarded as the catalog
says, in the state of the database that it finds. The requests take the catalog as a parameter;
`installed` is the one of a deployment.

## What is deliberately absent

Other sessions: a request here is alone. Rate limits, and the bodies of requests and responses.

## Main definitions

* `TableOf`: a table of the database, with its triggers and unique constraints
* `Request`, and the statements `select`, `selectForUpdate`, `insert`, `update`, `updateOne`,
  `delete`
* `authenticated`: the connection of a request that `get_current_user` has let in

## Main results

* `preserves_update` and its like: a statement keeps what does not depend on its table
* `selectForUpdate_teamTable`, `update_teamTable`: what the policies keep from a session that has
  bound no team
-/

namespace NextBallUp.Rls

open RowSecurity

/-- The error codes of `nextballup_core.constants.ErrorCode` that these requests raise. -/
inductive ErrorCode
  | forbidden | inviteNotFound | inviteInactive | inviteExpired | inviteExhausted
  | inviteRoleMismatch | alreadyMember | jerseyNumberRequired | jerseyNumberTaken
  | emailVerificationTokenInvalid | emailVerificationTokenExpired | emailVerificationTokenUsed
  | emailAlreadyVerified
  | passwordResetTokenInvalid | passwordResetTokenExpired | passwordResetTokenUsed | internalError
  deriving DecidableEq, Repr

/-- What ends a request. -/
inductive Failure
  | sql (e : SqlError TableName)
  | app (code : ErrorCode)
  /-- The row that `session.refresh` wants to read again is not there. -/
  | notRefreshed (table : TableName)
  | valueError
  | runtimeError
  deriving DecidableEq, Repr

/-! ### Tables -/

/-- A table of the database. -/
structure TableOf (R : Type) where
  name : TableName
  rows : Database → List R
  setRows : List R → Database → Database
  /-- What an `AFTER INSERT OR UPDATE` trigger does with the rows that have been written. -/
  afterWrite : List R → Database → Database := fun _ db => db
  /-- A `BEFORE UPDATE OR DELETE` trigger raises. -/
  appendOnly : Bool := false
  /-- The primary key, or a unique constraint, keeps the two rows from being there at once. -/
  conflicts : R → R → Bool

namespace TableOf

def users : TableOf User where
  name := .users
  rows := Database.users
  setRows l db := { db with users := l }
  conflicts a b := a.id = b.id || a.email = b.email

def refreshSessions : TableOf RefreshSession where
  name := .refreshSessions
  rows := Database.refreshSessions
  setRows l db := { db with refreshSessions := l }
  conflicts a b := a.id = b.id

/-- `sync_team_visibility()` -/
def syncTeamVisibility (written : List Team) (db : Database) : Database :=
  { db with teamVisibility :=
      db.teamVisibility.filter (fun v => v.1 ∉ written.map Team.id) ++
        written.map fun r => (r.id, r.deletedAt) }

def teams : TableOf Team where
  name := .teams
  rows := Database.teams
  setRows l db := { db with teams := l }
  afterWrite := syncTeamVisibility
  conflicts a b := a.id = b.id || a.inviteCode = b.inviteCode

def teamMemberships : TableOf TeamMembership where
  name := .teamMemberships
  rows := Database.teamMemberships
  setRows l db := { db with teamMemberships := l }
  conflicts a b := a.id = b.id || a.teamId = b.teamId &&
    (a.userId = b.userId || a.jerseyNumber.isSome && a.jerseyNumber = b.jerseyNumber)

def teamInvites : TableOf TeamInvite where
  name := .teamInvites
  rows := Database.teamInvites
  setRows l db := { db with teamInvites := l }
  conflicts a b := a.id = b.id || a.inviteCode = b.inviteCode

def videos : TableOf VideoRow where
  name := .videos
  rows := Database.videos
  setRows l db := { db with videos := l }
  conflicts a b := a.id = b.id

def processingJobs : TableOf JobRow where
  name := .processingJobs
  rows := Database.processingJobs
  setRows l db := { db with processingJobs := l }
  conflicts a b := a.id = b.id

def teamPrivacyConsents : TableOf TeamPrivacyConsent where
  name := .teamPrivacyConsents
  rows := Database.teamPrivacyConsents
  setRows l db := { db with teamPrivacyConsents := l }
  conflicts a b := a.id = b.id

def emailVerificationTokens : TableOf AccountToken where
  name := .emailVerificationTokens
  rows := Database.emailVerificationTokens
  setRows l db := { db with emailVerificationTokens := l }
  conflicts a b := a.id = b.id || a.tokenHash = b.tokenHash

def passwordResetTokens : TableOf AccountToken where
  name := .passwordResetTokens
  rows := Database.passwordResetTokens
  setRows l db := { db with passwordResetTokens := l }
  conflicts a b := a.id = b.id || a.tokenHash = b.tokenHash

def userTotpSecrets : TableOf UserFactor where
  name := .userTotpSecrets
  rows := Database.userTotpSecrets
  setRows l db := { db with userTotpSecrets := l }
  conflicts a b := a.id = b.id || a.userId = b.userId

def mfaRecoveryCodes : TableOf UserFactor where
  name := .mfaRecoveryCodes
  rows := Database.mfaRecoveryCodes
  setRows l db := { db with mfaRecoveryCodes := l }
  conflicts a b := a.id = b.id

/-- `sync_billing_account_visibility()` -/
def syncBillingAccountVisibility (written : List BillingAccount) (db : Database) : Database :=
  { db with billingAccountVisibility :=
      db.billingAccountVisibility.filter (fun v => v.1 ∉ written.map BillingAccount.id) ++
        written.map fun r => (r.id, r.deletedAt) }

def billingAccounts : TableOf BillingAccount where
  name := .billingAccounts
  rows := Database.billingAccounts
  setRows l db := { db with billingAccounts := l }
  afterWrite := syncBillingAccountVisibility
  conflicts a b := a.id = b.id

def accountTeamLinks : TableOf AccountTeamLink where
  name := .accountTeamLinks
  rows := Database.accountTeamLinks
  setRows l db := { db with accountTeamLinks := l }
  conflicts a b := a.teamId = b.teamId

def subscriptions : TableOf Subscription where
  name := .subscriptions
  rows := Database.subscriptions
  setRows l db := { db with subscriptions := l }
  conflicts a b := a.id = b.id || a.billingAccountId = b.billingAccountId &&
    a.currentPeriodStart = b.currentPeriodStart && a.planId = b.planId

def plans : TableOf Plan where
  name := .plans
  rows := Database.plans
  setRows l db := { db with plans := l }
  conflicts a b := a.id = b.id || a.code = b.code

/-- With `prevent_usage_event_mutation()`. -/
def usageEvents : TableOf UsageEvent where
  name := .usageEvents
  rows := Database.usageEvents
  setRows l db := { db with usageEvents := l }
  appendOnly := true
  conflicts a b := a.id = b.id

/-- With `prevent_csp_report_mutation()`. -/
def cspReports : TableOf CspReport where
  name := .cspReports
  rows := Database.cspReports
  setRows l db := { db with cspReports := l }
  appendOnly := true
  conflicts a b := a.id = b.id

/-- With `prevent_audit_mutation()`. Every entry has an id of its own, which nothing reads. -/
def auditLogs : TableOf AuditLog where
  name := .auditLogs
  rows := Database.auditLogs
  setRows l db := { db with auditLogs := l }
  appendOnly := true
  conflicts _ _ := false

end TableOf

/-! ### Statements -/

abbrev Request := Transaction Database Settings Failure

section Statements

variable {R : Type} [HasColumns R] (c : Catalog TableName PolicyName Clause) (t : TableOf R)

/-- The condition of a policy, for a statement that runs in this state. -/
def holdsIn (s : Settings) (db : Database) (clause : Clause) (r : R) : Bool :=
  clause.holds s db (HasColumns.column r)

/-- `SELECT … WHERE p` -/
def select (p : R → Bool) : Request (List R) :=
  .query fun s db => do
    let rows ← ((c t.name).select t.name (holdsIn s db) p (t.rows db)).mapError .sql
    return (rows, db)

/-- `SELECT … WHERE p FOR UPDATE` -/
def selectForUpdate (p : R → Bool) : Request (List R) :=
  .query fun s db => do
    let rows ← ((c t.name).selectForUpdate t.name (holdsIn s db) p (t.rows db)).mapError .sql
    return (rows, db)

/-- `INSERT … RETURNING` -/
def insert (new : R) : Request Unit :=
  .query fun s db => do
    let rows ← ((c t.name).insert t.name (holdsIn s db) t.conflicts new (t.rows db)).mapError .sql
    return ((), t.afterWrite [new] (t.setRows rows db))

/-- `UPDATE … SET f WHERE p`: the rows that have been written. -/
def update (p : R → Bool) (f : R → R) : Request (List R) :=
  .query fun s db => do
    let (rows, written) ←
      ((c t.name).update t.name (holdsIn s db) p f (t.rows db)).mapError .sql
    if written.isEmpty then return ([], db)
    else if t.appendOnly then throw (.sql (.raised t.name))
    else if rows.Pairwise fun a b => t.conflicts a b = false then
      return (written, t.afterWrite written (t.setRows rows db))
    else throw (.sql (.uniqueViolation t.name))

/-- The `UPDATE` of a row that the object mapper has loaded, which has to be there. -/
def updateOne (p : R → Bool) (f : R → R) : Request Unit := do
  let written ← update c t p f
  if written.length = 1 then pure () else throw (.sql (.staleData t.name))

/-- `DELETE … WHERE p`: the rows that have been deleted. -/
def delete (p : R → Bool) : Request (List R) :=
  .query fun s db => do
    let (rows, deleted) ← ((c t.name).delete t.name (holdsIn s db) p (t.rows db)).mapError .sql
    if t.appendOnly && !deleted.isEmpty then throw (.sql (.raised t.name))
    else return (deleted, t.setRows rows db)

/-! What a statement comes to when its guard lets it through, and when it does not. -/

variable {c t} {p : R → Bool} {f : R → R} {new : R} {rows written : List R}
  {e : SqlError TableName} {s : Transaction.Session Database Settings}

theorem select_ok
    (h : (c t.name).select t.name (holdsIn s.settings s.working) p (t.rows s.working) = .ok rows) :
    select c t p s = (.ok rows, s) := by
  simp only [select, Transaction.query, h]
  rfl

/-- A query returns the rows that it names and that can be seen. -/
theorem select_visible (hp : .select ∈ (c t.name).privileges) :
    select c t p s = (.ok ((t.rows s.working).filter fun r =>
      p r && (c t.name).admits (holdsIn s.settings s.working) .select r), s) :=
  select_ok (Guard.privileged_of_subset (by simpa using hp))

theorem selectForUpdate_ok
    (h : (c t.name).selectForUpdate t.name (holdsIn s.settings s.working) p (t.rows s.working) =
      .ok rows) :
    selectForUpdate c t p s = (.ok rows, s) := by
  simp only [selectForUpdate, Transaction.query, h]
  rfl

theorem insert_ok
    (h : (c t.name).insert t.name (holdsIn s.settings s.working) t.conflicts new
      (t.rows s.working) = .ok rows) :
    insert c t new s =
      (.ok (), { s with working := t.afterWrite [new] (t.setRows rows s.working) }) := by
  simp only [insert, Transaction.query, h]
  rfl

theorem update_error
    (h : (c t.name).update t.name (holdsIn s.settings s.working) p f (t.rows s.working) =
      .error e) :
    update c t p f s = (.error (.sql e), s) := by
  simp only [update, Transaction.query, h]
  rfl

theorem update_none
    (h : (c t.name).update t.name (holdsIn s.settings s.working) p f (t.rows s.working) =
      .ok (rows, [])) :
    update c t p f s = (.ok [], s) := by
  simp only [update, Transaction.query, h]
  rfl

omit [HasColumns R] in
/-- A table without triggers. -/
structure TableOf.Plain (t : TableOf R) : Prop where
  appendOnly : t.appendOnly = false
  afterWrite : ∀ written db, t.afterWrite written db = db
  setRows_rows : ∀ db, t.setRows (t.rows db) db = db

/-- An update all of whose rows may be written as they are to be. -/
theorem update_ok (ht : t.Plain) (hp : [.select, .update] ⊆ (c t.name).privileges)
    (h : ∀ r ∈ t.rows s.working, p r = true →
      (c t.name).admits (holdsIn s.settings s.working) .select r = true ∧
      (c t.name).admits (holdsIn s.settings s.working) .update r = true ∧
      (c t.name).mayWrite (holdsIn s.settings s.working) .update (f r) = true)
    (hkeys : ((t.rows s.working).map fun r => if p r then f r else r).Pairwise
      fun a b => t.conflicts a b = false) :
    update c t p f s = (.ok (((t.rows s.working).filter p).map f), { s with
      working := t.setRows
        ((t.rows s.working).map fun r => if p r then f r else r) s.working }) := by
  simp only [update, Transaction.query, Guard.update_eq_map hp h, Except.mapError, bind,
    Except.bind]
  cases hw : ((t.rows s.working).filter p).map f with
  | nil =>
    have hnone : ∀ r ∈ t.rows s.working, ¬ p r = true :=
      List.filter_eq_nil_iff.mp (List.map_eq_nil_iff.mp hw)
    have hkept : ((t.rows s.working).map fun r => if p r then f r else r) = t.rows s.working := by
      calc ((t.rows s.working).map fun r => if p r then f r else r)
          = (t.rows s.working).map id := List.map_congr_left fun r hr => by simp [hnone r hr]
        _ = t.rows s.working := List.map_id _
    rw [hkept, ht.setRows_rows]
    rfl
  | cons r rest =>
    simp only [List.isEmpty_cons, ht.appendOnly, hkeys, ht.afterWrite, Bool.false_eq_true, if_false,
      if_true]
    rfl

/-- The update of one row. -/
theorem updateOne_ok (ht : t.Plain) (hp : [.select, .update] ⊆ (c t.name).privileges) {r : R}
    (hone : (t.rows s.working).filter p = [r])
    (h : (c t.name).admits (holdsIn s.settings s.working) .select r = true ∧
      (c t.name).admits (holdsIn s.settings s.working) .update r = true ∧
      (c t.name).mayWrite (holdsIn s.settings s.working) .update (f r) = true)
    (hkeys : ((t.rows s.working).map fun r => if p r then f r else r).Pairwise
      fun a b => t.conflicts a b = false) :
    updateOne c t p f s = (.ok (), { s with
      working := t.setRows
        ((t.rows s.working).map fun r => if p r then f r else r) s.working }) := by
  have hrow : ∀ r' ∈ t.rows s.working, p r' = true → r' = r := by
    intro r' hr' hpr'
    have hm : r' ∈ (t.rows s.working).filter p := List.mem_filter.mpr ⟨hr', hpr'⟩
    rwa [hone, List.mem_singleton] at hm
  rw [updateOne, Transaction.bind_ok (update_ok ht hp (fun r' hr' hpr' => ?_) hkeys), hone]
  · rfl
  · rw [hrow r' hr' hpr']
    exact h

theorem delete_ok (ht : t.appendOnly = false)
    (h : (c t.name).delete t.name (holdsIn s.settings s.working) p (t.rows s.working) =
      .ok (rows, written)) :
    delete c t p s = (.ok written, { s with working := t.setRows rows s.working }) := by
  simp only [delete, Transaction.query, h, ht]
  rfl

/-! What a statement leaves alone. -/

/-- The invariant does not depend on the rows of the table. -/
structure TableOf.Irrelevant (t : TableOf R) (I : Transaction.Session Database Settings → Prop) :
    Prop where
  setRows : ∀ s l, I s → I { s with working := t.setRows l s.working }
  afterWrite : ∀ s l written, I s →
    I { s with working := t.afterWrite written (t.setRows l s.working) }

variable {I : Transaction.Session Database Settings → Prop}

theorem preserves_select : (select c t p).Preserves I := by
  refine .query fun s a db hs h => ?_
  cases hr : (c t.name).select t.name (holdsIn s.settings s.working) p (t.rows s.working) with
  | ok rows =>
    rw [hr] at h
    cases h
    exact hs
  | error e =>
    rw [hr] at h
    cases h

theorem preserves_insert (ht : t.Irrelevant I) : (insert c t new).Preserves I := by
  refine .query fun s a db hs h => ?_
  cases hr : (c t.name).insert t.name (holdsIn s.settings s.working) t.conflicts new
      (t.rows s.working) with
  | ok rows =>
    rw [hr] at h
    cases h
    exact ht.afterWrite _ _ _ hs
  | error e =>
    rw [hr] at h
    cases h

theorem preserves_update (ht : t.Irrelevant I) : (update c t p f).Preserves I := by
  refine .query fun s a db hs h => ?_
  cases hr : (c t.name).update t.name (holdsIn s.settings s.working) p f (t.rows s.working) with
  | ok rows =>
    rw [hr] at h
    simp only [Except.mapError, bind, Except.bind, pure, Except.pure] at h
    split at h
    · cases h
      exact hs
    · split at h
      · cases h
      · split at h
        · cases h
          exact ht.afterWrite _ _ _ hs
        · cases h
  | error e =>
    rw [hr] at h
    cases h

theorem preserves_updateOne (ht : t.Irrelevant I) : (updateOne c t p f).Preserves I := by
  refine .bind (preserves_update ht) fun written => ?_
  split
  · exact .pure _
  · exact .throw _

theorem preserves_delete (ht : t.Irrelevant I) : (delete c t p).Preserves I := by
  refine .query fun s a db hs h => ?_
  cases hr : (c t.name).delete t.name (holdsIn s.settings s.working) p (t.rows s.working) with
  | ok rows =>
    rw [hr] at h
    simp only [Except.mapError, bind, Except.bind, pure, Except.pure] at h
    split at h
    · cases h
    · cases h
      exact ht.setRows _ _ hs
  | error e =>
    rw [hr] at h
    cases h

/-! What a statement does to the rows of its own table. -/

/-- An update keeps what holds whichever rows it reaches. -/
theorem preserves_update_rows (ht : t.Plain)
    (h : ∀ s (q : R → Bool), I s → I { s with
      working := t.setRows ((t.rows s.working).map fun r => if q r then f r else r) s.working }) :
    (update c t p f).Preserves I := by
  refine .query fun s a db hs hq => ?_
  cases hr : (c t.name).update t.name (holdsIn s.settings s.working) p f (t.rows s.working) with
  | ok rows =>
    rw [hr] at hq
    simp only [Except.mapError, bind, Except.bind, pure, Except.pure] at hq
    split at hq
    · cases hq
      exact hs
    · split at hq
      · cases hq
      · split at hq
        · cases hq
          rw [ht.afterWrite, Guard.of_update_ok hr]
          exact h s _ hs
        · cases hq
  | error e =>
    rw [hr] at hq
    cases hq

/-- An insertion keeps what holds of a new row that conflicts with no other. -/
theorem preserves_insert_rows (ht : t.Plain)
    (h : ∀ s, I s → (∀ r ∈ t.rows s.working, t.conflicts new r = false) →
      I { s with working := t.setRows (t.rows s.working ++ [new]) s.working }) :
    (insert c t new).Preserves I := by
  refine .query fun s a db hs hq => ?_
  cases hr : (c t.name).insert t.name (holdsIn s.settings s.working) t.conflicts new
      (t.rows s.working) with
  | ok rows =>
    rw [hr] at hq
    cases hq
    obtain ⟨rfl, hnew⟩ := Guard.of_insert_ok hr
    rw [ht.afterWrite]
    exact h s hs hnew
  | error e =>
    rw [hr] at hq
    cases hq

theorem spec_selectForUpdate :
    (selectForUpdate c t p).Spec I
      (fun rows s => I s ∧ ∀ r ∈ rows, r ∈ t.rows s.working ∧ p r = true) I := by
  refine .query (fun s a db hs hq => ?_) fun _ _ hs _ => hs
  cases hr : (c t.name).selectForUpdate t.name (holdsIn s.settings s.working) p
      (t.rows s.working) with
  | ok rows =>
    rw [hr] at hq
    cases hq
    exact ⟨hs, fun r hmem => Guard.mem_of_selectForUpdate hr hmem⟩
  | error e =>
    rw [hr] at hq
    cases hq

theorem preserves_selectForUpdate : (selectForUpdate c t p).Preserves I :=
  ⟨spec_selectForUpdate.mono (fun _ hs => hs) (fun _ _ hq => hq.1) fun _ hs => hs⟩

end Statements

/-! ### The settings of a session -/

/-- `set_tenant_context`, and with `none` `clear_tenant_context`. -/
def setTenantContext (teamId : Option TeamId) : Request Unit :=
  .set fun s => { s with currentTeamId := teamId }

/-- `set_join_invite_context`, and with `none` `clear_join_invite_context`. The empty code is no
code. -/
def setJoinInviteContext (code : Option String) : Request Unit :=
  .set fun s => { s with currentJoinInviteCode := code.filter (· ≠ "") }

def setUserRoleContext (role : Option UserRole) : Request Unit :=
  .set fun s => { s with currentUserRole := role }

/-- `bind_authenticated_context` -/
def bindAuthenticatedContext (userId : UserId) (role : UserRole) (teamId : TeamId) :
    Request Unit :=
  .set fun s => { s with
    currentUserId := some userId
    currentUserRole := some role
    currentTeamId := some teamId }

def commit : Request Unit := Transaction.commit .unset

/-- The guards that the owner of the tables meets, which is the role of the repository's tests. -/
def unguarded : Catalog TableName PolicyName Clause := fun _ => ⟨false, [], Command.all⟩

section Unguarded

variable {R : Type} [HasColumns R] {t : TableOf R} {p : R → Bool}
  {s : Transaction.Session Database Settings}

theorem privileges_unguarded (table : TableName) (cmds : List Command) :
    cmds ⊆ (unguarded table).privileges := by
  intro cmd _
  cases cmd <;> simp [unguarded, Command.all]

omit [HasColumns R] in
theorem reaches_unguarded (table : TableName) (holds : Clause → R → Bool) (cmd : Command) :
    (unguarded table).reaches holds cmd p = p := by
  funext r
  simp [Guard.reaches, Guard.admits, unguarded]

theorem select_unguarded :
    select unguarded t p s = (.ok ((t.rows s.working).filter p), s) :=
  select_ok (Guard.select_eq_filter (privileges_unguarded _ [.select] (List.mem_singleton_self _))
    fun _ _ _ => rfl)

theorem selectForUpdate_unguarded :
    selectForUpdate unguarded t p s = (.ok ((t.rows s.working).filter p), s) := by
  refine selectForUpdate_ok ?_
  rw [Guard.selectForUpdate, Guard.privileged_of_subset (privileges_unguarded _ _),
    reaches_unguarded]

theorem insert_unguarded {new : R} (h : ∀ r ∈ t.rows s.working, t.conflicts new r = false) :
    insert unguarded t new s =
      (.ok (), { s with
        working := t.afterWrite [new] (t.setRows (t.rows s.working ++ [new]) s.working) }) :=
  insert_ok (Guard.insert_ok (privileges_unguarded _ _) rfl h)

theorem update_unguarded {f : R → R} (ht : t.appendOnly = false)
    (hne : (t.rows s.working).filter p ≠ [])
    (hkeys : ((t.rows s.working).map fun r => if p r then f r else r).Pairwise
      fun a b => t.conflicts a b = false) :
    update unguarded t p f s = (.ok (((t.rows s.working).filter p).map f), { s with
      working := t.afterWrite (((t.rows s.working).filter p).map f)
        (t.setRows ((t.rows s.working).map fun r => if p r then f r else r) s.working) }) := by
  have hwrite (h : Clause → R → Bool) (r : R) : (unguarded t.name).mayWrite h .update r = true :=
    rfl
  have hsome : (((t.rows s.working).filter p).map f).isEmpty = false := by simpa using hne
  simp only [update, Transaction.query, Guard.update,
    Guard.privileged_of_subset (privileges_unguarded _ _), reaches_unguarded, hwrite, Bool.or_true,
    List.all_eq_true, implies_true, if_true, Except.mapError, bind, Except.bind, hsome, ht,
    Bool.false_eq_true, if_false, hkeys, pure, Except.pure]

end Unguarded

/-- A connection on which nothing has happened yet. -/
def fresh (db : Database) : Transaction.Session Database Settings := ⟨db, db, .unset⟩

/-- A connection on which `get_current_user` has let the user in. -/
def authenticated (db : Database) (user : User) : Transaction.Session Database Settings where
  committed := db
  working := db
  settings := { Settings.unset with
    currentUserId := some user.id
    currentUserRole := some user.role }

/-- `write_audit` -/
def writeAudit (c : Catalog TableName PolicyName Clause) (action : AuditAction)
    (actorUserId : Option UserId) (teamId : Option TeamId) : Request Unit :=
  insert c .auditLogs ⟨action, actorUserId, teamId⟩

/-- `require_verified_account` -/
def requireVerifiedAccount (requireVerified : Bool) (user : User) : Request Unit :=
  if !requireVerified || user.role = .admin || user.isVerified then pure ()
  else throw (.app .forbidden)

theorem requireVerifiedAccount_ok {requireVerified : Bool} {user : User}
    (h : (!requireVerified || user.role = .admin || user.isVerified) = true)
    (s : Transaction.Session Database Settings) :
    requireVerifiedAccount requireVerified user s = (.ok (), s) := by
  rw [requireVerifiedAccount, if_pos h]
  rfl

/-! ### What the installed policies come to -/

section Installed

variable {R : Type} [HasColumns R] {t : TableOf R} {p : R → Bool} {f : R → R}
  {s : Transaction.Session Database Settings}

theorem admits_select_teamTable {table : TableName} (ht : table ∈ teamWriteTables) (s : Settings)
    (db : Database) (r : R) :
    (installed table).admits (holdsIn s db) .select r =
      holdsIn s db (.and (.teamVisible .teamId) (teamAccess table)) r := by
  rw [installed_teamTable table ht]
  simp [Guard.admits, crud, contextGuard, Policy.appliesTo]

theorem admits_write_teamTable {table : TableName} (ht : table ∈ teamWriteTables) (s : Settings)
    (db : Database) (r : R) {cmd : Command} (hcmd : cmd = .update ∨ cmd = .delete) :
    (installed table).admits (holdsIn s db) cmd r =
      holdsIn s db (visibilityClause .teamId) r := by
  rw [installed_teamTable table ht]
  rcases hcmd with rfl | rfl <;> simp [Guard.admits, crud, contextGuard, Policy.appliesTo]

theorem privileges_teamTable {table : TableName} (ht : table ∈ teamWriteTables)
    (cmds : List Command) : cmds ⊆ (installed table).privileges := by
  rw [installed_teamTable table ht]
  intro cmd _
  cases cmd <;> simp [crud, Command.all]

/-- Without a team no row of a team may be updated or deleted. -/
theorem not_admits_write_teamTable {table : TableName} (ht : table ∈ teamWriteTables) {s : Settings}
    (hs : s.currentTeamId = none) (db : Database) (r : R) {cmd : Command}
    (hcmd : cmd = .update ∨ cmd = .delete) :
    (installed table).admits (holdsIn s db) cmd r = false := by
  rw [admits_write_teamTable ht s db r hcmd]
  simp only [holdsIn, visibilityClause, Clause.holds, Setting.value, hs, Bool.and_eq_false_iff]
  cases HasColumns.column r .teamId <;> simp

/-- **Without a team nothing can be locked.** A statement that locks rows of a team finds none
before the session has bound that team, whoever the user is. -/
theorem selectForUpdate_teamTable (ht : t.name ∈ teamWriteTables)
    (hs : s.settings.currentTeamId = none) :
    selectForUpdate installed t p s = (.ok [], s) :=
  selectForUpdate_ok (Guard.selectForUpdate_eq_nil (privileges_teamTable ht _) fun r _ _ =>
    not_admits_write_teamTable ht hs _ r (.inl rfl))

/-- Nor is anything updated. -/
theorem update_teamTable (ht : t.name ∈ teamWriteTables) (hs : s.settings.currentTeamId = none) :
    update installed t p f s = (.ok [], s) :=
  update_none (Guard.update_eq_self (privileges_teamTable ht _) fun r _ =>
    Guard.reaches_eq_false (.inr (not_admits_write_teamTable ht hs _ r (.inl rfl))))

/-- An audit entry that belongs to no team can always be written. -/
theorem writeAudit_none (action : AuditAction) (actorUserId : Option UserId) :
    writeAudit installed action actorUserId none s = (.ok (), { s with
      working := { s.working with
        auditLogs := s.working.auditLogs ++ [⟨action, actorUserId, none⟩] } }) := by
  have hname : installed TableOf.auditLogs.name = installed .auditLogs := rfl
  refine insert_ok (Guard.insert_ok ?_ ?_ fun r _ => rfl) <;>
    rw [hname, installed_eq .auditLogs (by decide), guardOf]
  · exact List.Subset.refl _
  · simp [Guard.mayWrite, Guard.accepts, Guard.admits, Policy.appliesTo, holdsIn, Clause.holds,
      auditLogsAccess, HasColumns.column]

end Installed

end NextBallUp.Rls
