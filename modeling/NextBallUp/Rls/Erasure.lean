import NextBallUp.Rls.Requests

/-!
# Erasure under the policies

`delete_my_account` of `routers/auth.py`, as the runtime role runs it for the user whom
`get_current_user` has let in. The session has bound the user and the role, and neither a team nor a
billing account.

The request goes through nine tables in one transaction and reaches the reports of the content
security policy last. Those are append-only: the role has lost the privilege to update them, and an
`UPDATE` without the privilege raises whether or not the user has reports. So the transaction never
commits.

## Main definitions

* `deleteMyAccount`: the request
* `Erased`: what the request sets out to clear has been cleared
* `Erases`: the request returns, and has erased the user

## Main results

* `deleteMyAccount_raises`: the request raises, and the rows stay as they were
* `not_erases`: it erases nobody
* `updateOne_membership`, `update_consents`, `update_ownedAccounts`: three earlier statements that
  do not reach the rows they are for
-/

namespace NextBallUp.Rls

open RowSecurity

/-- `_anonymized_email` -/
def anonymizedEmail (userId : UserId) : String :=
  "deleted+" ++ toString userId ++ "@nextballup.invalid"

/-- `_DEACTIVATED_PASSWORD_SENTINEL` -/
def deactivatedPasswordSentinel : String := "!deactivated!"

/-- The assignments to `current_user`, but for its session version. -/
def User.anonymized (r : User) : User where
  id := r.id
  email := anonymizedEmail r.id
  passwordHash := deactivatedPasswordSentinel
  fullName := "[deleted user]"
  role := r.role
  phone := none
  institution := none
  avatarUrl := none
  isActive := false
  isVerified := r.isVerified
  sessionVersion := r.sessionVersion
  heightInches := none
  weightLbs := none
  position := none
  graduationYear := none
  handedness := none
  biometricConsent := false
  parentalConsentOnFile := false
  dateOfBirthVerified := false

/-- The assignments to a membership. -/
def TeamMembership.deactivated (r : TeamMembership) : TeamMembership :=
  { r with isActive := false, teamRole := .player }

def AccountToken.scrubbed (r : AccountToken) : AccountToken :=
  { r with requestedIp := none, requestedUserAgent := none, usedIp := none }

section Request

variable (c : Catalog TableName PolicyName Clause) (user : User) (now : Time)

/-- The object mapper writes a loaded row if an assignment has changed it. -/
def flushMembership (loaded : TeamMembership) : Request Unit :=
  if loaded.deactivated = loaded then pure ()
  else updateOne c .teamMemberships (fun r => r.id = loaded.id) TeamMembership.deactivated

def flushUser (f : User → User) : Request Unit :=
  if f user = user then pure ()
  else updateOne c .users (fun r => r.id = user.id) f

/-- `_revoke_refresh_sessions` -/
def revokeRefreshSessions (reason : String) : Request Unit := do
  let _ ← update c .refreshSessions (fun r => r.userId = user.id && r.revokedAt = none)
    fun r => { r with revokedAt := some now, revokedReason := some reason }

/-- The two statements about the tokens of one table. -/
def invalidateTokens (t : TableOf AccountToken) : Request Unit := do
  let _ ← update c t (fun r => r.userId = user.id && r.usedAt = none)
    fun r => { r.scrubbed with usedAt := some now }
  let _ ← update c t (fun r => r.userId = user.id) AccountToken.scrubbed

/-- `delete_my_account` -/
def deleteMyAccount : Request Time := do
  let memberships ← select c .teamMemberships fun r => r.userId = user.id
  -- What has been assigned is written before the next statement.
  flushUser c user User.anonymized
  memberships.forM (flushMembership c)
  revokeRefreshSessions c user now "account_deleted"
  flushUser c user.anonymized fun r => { r with sessionVersion := user.sessionVersion + 1 }
  invalidateTokens c user now .emailVerificationTokens
  invalidateTokens c user now .passwordResetTokens
  let _ ← delete c .mfaRecoveryCodes fun r => r.userId = user.id
  let _ ← delete c .userTotpSecrets fun r => r.userId = user.id
  let _ ← update c .teamPrivacyConsents (fun r => r.recordedBy = some user.id)
    fun r => { r with recordedBy := none }
  let _ ← update c .billingAccounts (fun r => r.ownerUserId = some user.id)
    fun r => { r with ownerUserId := none, billingEmail := none }
  let _ ← update c .cspReports (fun r => r.userId = some user.id)
    fun r => { r with userId := none, reporterIp := none, userAgent := none }
  writeAudit c .userAccountDeleted (some user.id) none
  commit
  return now

end Request

/-- **Nothing that the request sets out to clear is left of the user.** `db` are the rows before. -/
structure Erased (user : User) (db db' : Database) : Prop where
  anonymized : ∀ r ∈ db'.users, r.id = user.id →
    r = { user.anonymized with sessionVersion := user.sessionVersion + 1 }
  memberships : ∀ r ∈ db'.teamMemberships, r.userId = user.id → r.isActive = false
  refreshSessions : ∀ r ∈ db'.refreshSessions, r.userId = user.id → r.revokedAt ≠ none
  tokens : ∀ r ∈ db'.emailVerificationTokens ++ db'.passwordResetTokens, r.userId = user.id →
    r.usedAt ≠ none ∧ r.scrubbed = r
  factors : ∀ r ∈ db'.userTotpSecrets ++ db'.mfaRecoveryCodes, r.userId ≠ user.id
  consents : ∀ r ∈ db'.teamPrivacyConsents, r.recordedBy ≠ some user.id
  billingAccounts : ∀ r ∈ db'.billingAccounts, r.ownerUserId ≠ some user.id
  /-- The reports that the user is linked to beforehand keep neither the link nor its circumstances.
  -/
  cspReports : ∀ r ∈ db.cspReports, r.userId = some user.id → ∀ r' ∈ db'.cspReports, r'.id = r.id →
    r'.userId = none ∧ r'.reporterIp = none ∧ r'.userAgent = none

/-- The request commits, and has erased the user. -/
def Erases (c : Catalog TableName PolicyName Clause) (user : User) (now : Time) (db : Database) :
    Prop :=
  (∃ deletedAt, (deleteMyAccount c user now (authenticated db user)).1 = .ok deletedAt) ∧
    Erased user db ((deleteMyAccount c user now).result (authenticated db user))

/-! ### The request raises -/

section Uncommitted

variable {c : Catalog TableName PolicyName Clause} {user : User} {now : Time} {db : Database}

/-- What is committed does not depend on what a statement writes. -/
theorem irrelevant_committed {R : Type} {t : TableOf R} :
    t.Irrelevant fun s => s.committed = db :=
  ⟨fun _ _ hs => hs, fun _ _ _ hs => hs⟩

theorem preserves_flushMembership (m : TeamMembership) :
    (flushMembership c m).Preserves fun s => s.committed = db := by
  unfold flushMembership
  split
  · exact .pure _
  · exact preserves_updateOne irrelevant_committed

theorem preserves_flushUser {f : User → User} :
    (flushUser c user f).Preserves fun s => s.committed = db := by
  unfold flushUser
  split
  · exact .pure _
  · exact preserves_updateOne irrelevant_committed

theorem preserves_revokeRefreshSessions {reason : String} :
    (revokeRefreshSessions c user now reason).Preserves fun s => s.committed = db :=
  .bind (preserves_update irrelevant_committed) fun _ => .pure _

theorem preserves_invalidateTokens {t : TableOf AccountToken} :
    (invalidateTokens c user now t).Preserves fun s => s.committed = db :=
  .bind (preserves_update irrelevant_committed) fun _ =>
    .bind (preserves_update irrelevant_committed) fun _ => .pure _

end Uncommitted

/-- **Reports cannot be updated**, be there any or none. -/
theorem update_cspReports (p : CspReport → Bool) (f : CspReport → CspReport)
    (s : Transaction.Session Database Settings) :
    update installed .cspReports p f s =
      (.error (.sql (.insufficientPrivilege .cspReports)), s) := by
  refine update_error (Guard.update_unprivileged ?_)
  rw [show TableOf.cspReports.name = .cspReports from rfl, installed_eq .cspReports (by decide),
    guardOf]
  decide

variable {user : User} {now : Time} {db : Database}

/-- **The erasure raises, and the rows stay as they were.** -/
theorem deleteMyAccount_raises (user : User) (now : Time) (db : Database) :
    (∃ e, (deleteMyAccount installed user now (authenticated db user)).1 = .error e) ∧
      (deleteMyAccount installed user now).result (authenticated db user) = db := by
  refine Transaction.Spec.result_eq (P := fun s => s.committed = db) ?_ rfl
  unfold deleteMyAccount
  refine .bind preserves_select.spec fun memberships => ?_
  refine .bind preserves_flushUser.spec fun _ => ?_
  refine .bind (Transaction.Preserves.forM memberships preserves_flushMembership).spec fun _ => ?_
  refine .bind preserves_revokeRefreshSessions.spec fun _ => ?_
  refine .bind preserves_flushUser.spec fun _ => ?_
  refine .bind preserves_invalidateTokens.spec fun _ => ?_
  refine .bind preserves_invalidateTokens.spec fun _ => ?_
  refine .bind (preserves_delete irrelevant_committed).spec fun _ => ?_
  refine .bind (preserves_delete irrelevant_committed).spec fun _ => ?_
  refine .bind (preserves_update irrelevant_committed).spec fun _ => ?_
  refine .bind (preserves_update irrelevant_committed).spec fun _ => ?_
  -- Here the request comes to the reports, and goes no further.
  refine .bind (Q := fun _ _ => False) (fun s hs => ?_) fun _ s hs => hs.elim
  rw [update_cspReports]
  exact hs

-- The owner of the tables, whom no privilege is missing, gets to the end if the user has no
-- reports.
example : (deleteMyAccount unguarded (.plain 0 "player@example.com" .player) 5
    (authenticated { Database.empty with
      users := [.plain 0 "player@example.com" .player]
      teamMemberships := [⟨0, 0, 0, .captain, some 7, true⟩] }
      (.plain 0 "player@example.com" .player))).1.toOption = some 5 := by
  decide +kernel

/-- **The erasure erases nobody.** -/
theorem not_erases (user : User) (now : Time) (db : Database) : ¬ Erases installed user now db := by
  rintro ⟨⟨deletedAt, hok⟩, -⟩
  obtain ⟨⟨e, herr⟩, -⟩ := deleteMyAccount_raises user now db
  rw [herr] at hok
  cases hok

/-- Not even a user is erased who has left no trace in any other table. -/
theorem exists_not_erases : ∃ db user, db.users = [user] ∧ user.isActive = true ∧
    ∀ now, ¬ Erases installed user now db := by
  refine ⟨{ Database.empty with users := [.plain 0 "player@example.com" .player] },
    .plain 0 "player@example.com" .player, rfl, rfl, ?_⟩
  rintro now ⟨⟨deletedAt, hok⟩, -⟩
  rw [(deleteMyAccount_raises _ now _).1.choose_spec] at hok
  cases hok

/-! ### What else stands in the way

Under these policies the privilege alone would not make the request erase its user. -/

section Unreached

variable {s : Transaction.Session Database Settings}

/-- A loaded membership is not there to be written, so that the object mapper raises. -/
theorem updateOne_membership {p : TeamMembership → Bool} {f : TeamMembership → TeamMembership}
    (hs : s.settings.currentTeamId = none) :
    updateOne installed .teamMemberships p f s =
      (.error (.sql (.staleData .teamMemberships)), s) := by
  rw [updateOne, Transaction.bind_ok (update_teamTable (by decide) hs)]
  rfl

/-- The user stays in the consents that the user has recorded. -/
theorem update_consents {p : TeamPrivacyConsent → Bool}
    {f : TeamPrivacyConsent → TeamPrivacyConsent} (hs : s.settings.currentTeamId = none) :
    update installed .teamPrivacyConsents p f s = (.ok [], s) :=
  update_teamTable (by decide) hs

/-- The user stays the owner of the billing accounts. -/
theorem update_ownedAccounts {p : BillingAccount → Bool} {f : BillingAccount → BillingAccount}
    (hrole : s.settings.currentUserRole ≠ some .admin)
    (hs : s.settings.currentBillingAccountId = none) :
    update installed .billingAccounts p f s = (.ok [], s) := by
  have hname : installed TableOf.billingAccounts.name = installed .billingAccounts := rfl
  refine update_none (Guard.update_eq_self ?_ fun r _ => Guard.reaches_eq_false (.inr ?_)) <;>
    rw [hname, installed_eq .billingAccounts (by decide), guardOf]
  · simp [crud, Command.all]
  · simp [Guard.admits, crud, Policy.appliesTo, billingAccountWrite, holdsIn, Clause.holds,
      Setting.value, hrole, hs]

end Unreached

end NextBallUp.Rls
