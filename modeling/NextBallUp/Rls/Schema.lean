import NextBallUp.Rows
import NextBallUp.Lib.RowSecurity
import NextBallUp.Lib.Transactions

/-!
# What the policies are about

The tables that the policies guard, the session settings that the policies read, and the language
in which their conditions are written. Migrations and requests are modules of their own.

## Identifiers and texts

`uuid` columns and timestamps are numbers. A setting that is unset, or set to the empty string, is
`none`: every condition reads it through `NULLIF(current_setting(…, true), '')`.

## What is deliberately absent

Columns by which no request modelled here decides anything, and which it at most copies. The rows of
`games` and of the tables of the CV pipeline: their guards are here, and what is proved of them is
proved of any rows.

## Main definitions

* `TableName`, `Settings`, `Database`: the tables, the settings and the rows
* `Clause`: the conditions of the policies, and `Clause.holds`
-/

namespace NextBallUp.Rls

open RowSecurity

/-! ### Tables -/

inductive TableName
  | users | refreshSessions | teams | teamMemberships | teamInvites | auditLogs | games | videos
  | processingJobs | teamPrivacyConsents | videoFrameClocks | videoObjectDetections | videoTracks
  | videoEvents | videoMetrics | emailVerificationTokens | passwordResetTokens | userTotpSecrets
  | mfaRecoveryCodes | billingAccounts | accountTeamLinks | subscriptions | plans | usageEvents
  | cspReports
  deriving DecidableEq, Repr

inductive UserRole
  | coach | player | admin
  deriving DecidableEq, Repr

inductive TeamRole
  | headCoach | assistantCoach | manager | player | captain
  deriving DecidableEq, Repr

/-- A row of `users`. -/
structure User where
  id : UserId
  email : String
  passwordHash : String
  fullName : String
  role : UserRole
  phone : Option String
  institution : Option String
  avatarUrl : Option String
  isActive : Bool
  isVerified : Bool
  sessionVersion : ℕ
  heightInches : Option ℕ
  weightLbs : Option ℕ
  position : Option String
  graduationYear : Option ℕ
  handedness : Option String
  biometricConsent : Bool
  parentalConsentOnFile : Bool
  dateOfBirthVerified : Bool
  deriving DecidableEq, Repr

/-- An active and verified user with an empty profile. -/
def User.plain (id : UserId) (email : String) (role : UserRole) : User where
  id := id
  email := email
  passwordHash := "hash"
  fullName := "name"
  role := role
  phone := none
  institution := none
  avatarUrl := none
  isActive := true
  isVerified := true
  sessionVersion := 0
  heightInches := none
  weightLbs := none
  position := none
  graduationYear := none
  handedness := none
  biometricConsent := false
  parentalConsentOnFile := false
  dateOfBirthVerified := false

/-- A row of `refresh_sessions`. -/
structure RefreshSession where
  id : ℕ
  userId : UserId
  revokedAt : Option Time
  revokedReason : Option String
  deriving DecidableEq, Repr

/-- A row of `teams`. -/
structure Team where
  id : TeamId
  inviteCode : String
  isActive : Bool
  deletedAt : Option Time
  deriving DecidableEq, Repr

/-- A row of `team_memberships`. -/
structure TeamMembership where
  id : ℕ
  teamId : TeamId
  userId : UserId
  teamRole : TeamRole
  jerseyNumber : Option ℕ
  isActive : Bool
  deriving DecidableEq, Repr

/-- A row of `team_invites`. -/
structure TeamInvite where
  id : ℕ
  teamId : TeamId
  inviteCode : String
  role : TeamRole
  maxUses : ℤ
  uses : ℤ
  expiresAt : Time
  isActive : Bool
  deriving DecidableEq, Repr

/-- A row of `videos`, under its key. -/
structure VideoRow where
  id : VideoId
  row : Video
  uploadedBy : Option UserId
  deriving DecidableEq, Repr

/-- A row of `processing_jobs`, under its key. -/
structure JobRow where
  id : JobId
  teamId : TeamId
  row : ProcessingJob
  deriving DecidableEq, Repr

/-- A row of `team_privacy_consents`. -/
structure TeamPrivacyConsent where
  id : ℕ
  teamId : TeamId
  recordedBy : Option UserId
  deriving DecidableEq, Repr

/-- A row of `email_verification_tokens` or of `password_reset_tokens`, which have the same
columns. -/
structure AccountToken where
  id : ℕ
  userId : UserId
  tokenHash : String
  expiresAt : Time
  usedAt : Option Time
  requestedIp : Option String
  requestedUserAgent : Option String
  /-- `confirmed_ip`, `reset_ip`. -/
  usedIp : Option String
  deriving DecidableEq, Repr

/-- A row of `user_totp_secrets` or of `mfa_recovery_codes`. -/
structure UserFactor where
  id : ℕ
  userId : UserId
  /-- Of `user_totp_secrets` only. -/
  confirmedAt : Option Time
  /-- Of `user_totp_secrets` only. -/
  disabledAt : Option Time
  /-- `last_used_at`, `used_at`. -/
  usedAt : Option Time
  deriving DecidableEq, Repr

inductive BillingAccountStatus
  | active | suspended | closed
  deriving DecidableEq, Repr

/-- A row of `billing_accounts`. -/
structure BillingAccount where
  id : AccountId
  ownerUserId : Option UserId
  billingEmail : Option String
  status : BillingAccountStatus
  deletedAt : Option Time
  deriving DecidableEq, Repr

/-- A row of `account_team_links`. -/
structure AccountTeamLink where
  billingAccountId : AccountId
  teamId : TeamId
  deriving DecidableEq, Repr

/-- A row of `plans`. The quotas are `none` where they are unlimited. -/
structure Plan where
  id : ℕ
  code : String
  maxVideosPerMonth : Option ℕ
  maxStorageGb : Option ℕ
  deriving DecidableEq, Repr

/-- A row of `subscriptions`, with the quotas of `plan_quotas_at_activation`. -/
structure Subscription where
  id : ℕ
  billingAccountId : AccountId
  planId : ℕ
  status : SubscriptionStatus
  currentPeriodStart : Time
  planCodeAtActivation : String
  maxVideosPerMonthAtActivation : Option ℕ
  maxStorageGbAtActivation : Option ℕ
  deriving DecidableEq, Repr

/-- A row of `usage_events`. -/
structure UsageEvent where
  id : ℕ
  billingAccountId : AccountId
  teamId : Option TeamId
  eventKey : EventKey
  quantity : ℤ
  occurredAt : Time
  deriving DecidableEq, Repr

/-- A row of `csp_reports`. -/
structure CspReport where
  id : ℕ
  userId : Option UserId
  reporterIp : Option String
  userAgent : Option String
  deriving DecidableEq, Repr

/-- The audit actions that are written here. -/
inductive AuditAction
  | teamJoinSucceeded | teamJoinFailed | teamDeleted | userAccountDeleted
  | userEmailVerificationTokensPruned | userPasswordResetTokensPruned
  | userEmailVerificationRequested | userEmailVerificationSent | userEmailVerificationConfirmed
  | userEmailVerificationRejected
  | userPasswordResetRequested | userPasswordResetSent | userPasswordResetSucceeded
  | userPasswordResetRejected
  | userDataExported
  /-- An action of the pipeline. -/
  | pipeline (action : NextBallUp.AuditAction)
  deriving DecidableEq, Repr

/-- A row of `audit_logs`. -/
structure AuditLog where
  action : AuditAction
  actorUserId : Option UserId
  teamId : Option TeamId
  deriving DecidableEq, Repr

/-- The rows of all tables. -/
structure Database where
  users : List User
  refreshSessions : List RefreshSession
  teams : List Team
  /-- `team_visibility`, which a trigger keeps. -/
  teamVisibility : List (TeamId × Option Time)
  teamMemberships : List TeamMembership
  teamInvites : List TeamInvite
  videos : List VideoRow
  processingJobs : List JobRow
  teamPrivacyConsents : List TeamPrivacyConsent
  emailVerificationTokens : List AccountToken
  passwordResetTokens : List AccountToken
  userTotpSecrets : List UserFactor
  mfaRecoveryCodes : List UserFactor
  billingAccounts : List BillingAccount
  /-- `billing_account_visibility`, which a trigger keeps. -/
  billingAccountVisibility : List (AccountId × Option Time)
  accountTeamLinks : List AccountTeamLink
  subscriptions : List Subscription
  plans : List Plan
  usageEvents : List UsageEvent
  cspReports : List CspReport
  auditLogs : List AuditLog
  deriving DecidableEq

/-- No rows at all. -/
def Database.empty : Database :=
  ⟨[], [], [], [], [], [], [], [], [], [], [], [], [], [], [], [], [], [], [], [], []⟩

/-! ### Settings -/

/-- The settings of a session, `app.…`. -/
structure Settings where
  currentUserId : Option UserId
  currentUserRole : Option UserRole
  currentTeamId : Option TeamId
  currentBillingAccountId : Option AccountId
  currentJoinInviteCode : Option String
  currentEmailVerificationTokenHash : Option String
  currentPasswordResetTokenHash : Option String
  includeDeleted : Bool
  deriving DecidableEq, Repr

/-- A transaction begins without settings. -/
def Settings.unset : Settings := ⟨none, none, none, none, none, none, none, false⟩

/-! ### Conditions -/

/-- What a column or a setting can hold. -/
inductive Value
  | number (n : ℕ)
  | text (s : String)
  deriving DecidableEq, Repr

/-- The columns that the policies look at. -/
inductive Column
  | id | teamId | userId | billingAccountId | ownerUserId | actorUserId | inviteCode | tokenHash
  | deletedAt
  deriving DecidableEq, Repr

/-- The settings that are compared with columns. -/
inductive Setting
  | userId | teamId | billingAccountId | joinInviteCode | emailVerificationTokenHash
  | passwordResetTokenHash
  deriving DecidableEq, Repr

def Setting.value (s : Settings) : Setting → Option Value
  | .userId => s.currentUserId.map .number
  | .teamId => s.currentTeamId.map .number
  | .billingAccountId => s.currentBillingAccountId.map .number
  | .joinInviteCode => s.currentJoinInviteCode.map .text
  | .emailVerificationTokenHash => s.currentEmailVerificationTokenHash.map .text
  | .passwordResetTokenHash => s.currentPasswordResetTokenHash.map .text

/-- The conditions of the policies. -/
inductive Clause
  /-- `column = setting`. -/
  | eq (column : Column) (setting : Setting)
  | isNull (column : Column)
  /-- `app.current_user_role = 'admin'`. -/
  | adminRole
  | includeDeleted
  /-- `nextballup_team_visible(column)`. -/
  | teamVisible (column : Column)
  /-- `nextballup_billing_account_visible(column)`. -/
  | billingAccountVisible (column : Column)
  /-- `EXISTS (SELECT 1 FROM team_memberships tm WHERE tm.team_id = column AND tm.user_id = … AND
  tm.is_active)`, for the current user. -/
  | activeMember (column : Column)
  | and (c d : Clause)
  | or (c d : Clause)
  deriving DecidableEq, Repr

/-- `nextballup_include_deleted()` -/
def Settings.showsDeleted (s : Settings) : Bool :=
  s.currentUserRole = some .admin && s.includeDeleted

/-- `nextballup_team_visible(row_team_id)` -/
def Database.teamVisible (db : Database) (s : Settings) (rowTeamId : Option Value) : Bool :=
  db.teamVisibility.any fun v =>
    rowTeamId = some (.number v.1) && (v.2.isNone || s.showsDeleted)

/-- `nextballup_billing_account_visible(row_account_id)` -/
def Database.billingAccountVisible (db : Database) (s : Settings) (rowAccountId : Option Value) :
    Bool :=
  db.billingAccountVisibility.any fun v =>
    rowAccountId = some (.number v.1) && (v.2.isNone || s.showsDeleted)

/-- The condition is true of the row with these columns. -/
def Clause.holds (s : Settings) (db : Database) (row : Column → Option Value) : Clause → Bool
  | .eq column setting => (row column).isSome && row column = setting.value s
  | .isNull column => (row column).isNone
  | .adminRole => s.currentUserRole = some .admin
  | .includeDeleted => s.showsDeleted
  | .teamVisible column => db.teamVisible s (row column)
  | .billingAccountVisible column => db.billingAccountVisible s (row column)
  | .activeMember column =>
    -- The subquery sees the memberships of the user in teams that are visible.
    db.teamMemberships.any fun tm =>
      row column = some (.number tm.teamId) && s.currentUserId = some tm.userId && tm.isActive &&
        db.teamVisible s (some (.number tm.teamId))
  | .and c d => c.holds s db row && d.holds s db row
  | .or c d => c.holds s db row || d.holds s db row

theorem Clause.holds_and (s : Settings) (db : Database) (row : Column → Option Value)
    (c d : Clause) :
    (c.and d).holds s db row = (c.holds s db row && d.holds s db row) := rfl

theorem Clause.holds_or (s : Settings) (db : Database) (row : Column → Option Value)
    (c d : Clause) :
    (c.or d).holds s db row = (c.holds s db row || d.holds s db row) := rfl

/-- What a row shows of itself to the policies. -/
class HasColumns (R : Type) where
  column : R → Column → Option Value

instance : HasColumns User := ⟨fun r => fun | .id => some (.number r.id) | _ => none⟩

instance : HasColumns RefreshSession := ⟨fun r => fun
  | .id => some (.number r.id)
  | .userId => some (.number r.userId)
  | _ => none⟩

instance : HasColumns Team := ⟨fun r => fun
  | .id => some (.number r.id)
  | .inviteCode => some (.text r.inviteCode)
  | .deletedAt => r.deletedAt.map .number
  | _ => none⟩

instance : HasColumns TeamMembership := ⟨fun r => fun
  | .id => some (.number r.id)
  | .teamId => some (.number r.teamId)
  | .userId => some (.number r.userId)
  | _ => none⟩

instance : HasColumns TeamInvite := ⟨fun r => fun
  | .id => some (.number r.id)
  | .teamId => some (.number r.teamId)
  | .inviteCode => some (.text r.inviteCode)
  | _ => none⟩

instance : HasColumns VideoRow := ⟨fun r => fun
  | .teamId => some (.number r.row.teamId)
  | _ => none⟩

instance : HasColumns JobRow := ⟨fun r => fun
  | .teamId => some (.number r.teamId)
  | _ => none⟩

instance : HasColumns TeamPrivacyConsent := ⟨fun r => fun
  | .id => some (.number r.id)
  | .teamId => some (.number r.teamId)
  | _ => none⟩

instance : HasColumns AccountToken := ⟨fun r => fun
  | .id => some (.number r.id)
  | .userId => some (.number r.userId)
  | .tokenHash => some (.text r.tokenHash)
  | _ => none⟩

instance : HasColumns UserFactor := ⟨fun r => fun
  | .id => some (.number r.id)
  | .userId => some (.number r.userId)
  | _ => none⟩

instance : HasColumns BillingAccount := ⟨fun r => fun
  | .id => some (.number r.id)
  | .ownerUserId => r.ownerUserId.map .number
  | .deletedAt => r.deletedAt.map .number
  | _ => none⟩

instance : HasColumns AccountTeamLink := ⟨fun r => fun
  | .billingAccountId => some (.number r.billingAccountId)
  | .teamId => some (.number r.teamId)
  | _ => none⟩

instance : HasColumns Subscription := ⟨fun r => fun
  | .id => some (.number r.id)
  | .billingAccountId => some (.number r.billingAccountId)
  | _ => none⟩

instance : HasColumns Plan := ⟨fun r => fun | .id => some (.number r.id) | _ => none⟩

instance : HasColumns UsageEvent := ⟨fun r => fun
  | .id => some (.number r.id)
  | .billingAccountId => some (.number r.billingAccountId)
  | .teamId => r.teamId.map .number
  | _ => none⟩

instance : HasColumns CspReport := ⟨fun r => fun
  | .id => some (.number r.id)
  | .userId => r.userId.map .number
  | _ => none⟩

instance : HasColumns AuditLog := ⟨fun r => fun
  | .teamId => r.teamId.map .number
  | .actorUserId => r.actorUserId.map .number
  | _ => none⟩

end NextBallUp.Rls
