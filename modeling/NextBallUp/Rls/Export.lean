import NextBallUp.Rls.Requests

/-!
# Subject access under the policies

`export_my_data` of `routers/auth.py`, as the runtime role runs it for the user whom
`get_current_user` has let in. Its queries name the rows that are keyed to the user. The session has
bound the user and the role, and neither a team nor a billing account, so that each table hides some
of these rows by a rule of its own: memberships, audit events and accounts once they belong to
something deleted, videos and consents also when the user is no active member of the team any more,
and the usage events of the teams always.

## What is deliberately absent

The order of the lists, and which columns of a row are shown.

## Main definitions

* `exportMyData`: the request
* `IsComplete`: the lists are the rows that are keyed to the user
* `NothingHidden`: the condition on the rows

## Main results

* `exportMyData_eq`: what the request returns
* `exportIsComplete_iff`: **the export is complete exactly when nothing is hidden**
* `exists_not_exportIsComplete`: a coach who has uploaded a video
-/

namespace NextBallUp.Rls

open RowSecurity

/-- What is shown of the second factor. -/
structure MfaEnrollment where
  enrolled : Bool
  confirmedAt : Option Time
  disabledAt : Option Time
  lastUsedAt : Option Time
  recoveryCodesTotal : ℕ
  recoveryCodesUnused : ℕ
  deriving DecidableEq, Repr

structure UserDataExport where
  user : User
  teamMemberships : List TeamMembership
  /-- The teams of the memberships, whose names are shown. -/
  teams : List Team
  videosUploaded : List VideoRow
  auditEvents : List AuditLog
  refreshSessions : List RefreshSession
  emailVerificationTokens : List AccountToken
  passwordResetTokens : List AccountToken
  mfa : MfaEnrollment
  billingAccountsOwned : List BillingAccount
  usageEventsForMemberTeams : List UsageEvent
  teamPrivacyConsentsRecorded : List TeamPrivacyConsent
  cspReportsAttributed : List CspReport
  deriving DecidableEq

def mfaEnrollment (totpRecord : Option UserFactor) (recoveryTotal recoveryUnused : ℕ) :
    MfaEnrollment where
  enrolled := totpRecord.any fun r => r.disabledAt = none
  confirmedAt := totpRecord.bind UserFactor.confirmedAt
  disabledAt := totpRecord.bind UserFactor.disabledAt
  lastUsedAt := totpRecord.bind UserFactor.usedAt
  recoveryCodesTotal := recoveryTotal
  recoveryCodesUnused := recoveryUnused

/-- The event is one of these teams. -/
def UsageEvent.isOf (teams : List TeamId) (r : UsageEvent) : Bool := r.teamId.any (· ∈ teams)

/-- Without teams the query is not made. -/
def selectUsageEvents (c : Catalog TableName PolicyName Clause) (memberTeamIds : List TeamId) :
    Request (List UsageEvent) :=
  if memberTeamIds = [] then pure [] else select c .usageEvents (UsageEvent.isOf memberTeamIds)

/-- `export_my_data` -/
def exportMyData (c : Catalog TableName PolicyName Clause) (user : User) :
    Request UserDataExport := do
  let memberships ← select c .teamMemberships fun r => r.userId = user.id
  let teams ← select c .teams fun r => r.id ∈ memberships.map TeamMembership.teamId
  let videos ← select c .videos fun r => r.uploadedBy = some user.id
  let auditEvents ← select c .auditLogs fun r => r.actorUserId = some user.id
  let refreshSessions ← select c .refreshSessions fun r => r.userId = user.id
  let emailTokens ← select c .emailVerificationTokens fun r => r.userId = user.id
  let passwordResetTokens ← select c .passwordResetTokens fun r => r.userId = user.id
  let totpRecords ← select c .userTotpSecrets fun r => r.userId = user.id
  let recoveryCodes ← select c .mfaRecoveryCodes fun r => r.userId = user.id
  let unusedCodes ← select c .mfaRecoveryCodes fun r => r.userId = user.id && r.usedAt = none
  let ownedAccounts ← select c .billingAccounts fun r => r.ownerUserId = some user.id
  let usageEvents ← selectUsageEvents c (memberships.map TeamMembership.teamId)
  let consentsRecorded ← select c .teamPrivacyConsents fun r => r.recordedBy = some user.id
  let cspReports ← select c .cspReports fun r => r.userId = some user.id
  writeAudit c .userDataExported (some user.id) none
  commit
  return {
    user := user
    teamMemberships := memberships
    teams := teams
    videosUploaded := videos
    auditEvents := auditEvents
    refreshSessions := refreshSessions
    emailVerificationTokens := emailTokens
    passwordResetTokens := passwordResetTokens
    mfa := mfaEnrollment totpRecords.head? recoveryCodes.length unusedCodes.length
    billingAccountsOwned := ownedAccounts
    usageEventsForMemberTeams := usageEvents
    teamPrivacyConsentsRecorded := consentsRecorded
    cspReportsAttributed := cspReports }

/-! ### Completeness -/

/-- The teams that the user is or was a member of. -/
def Database.memberTeams (db : Database) (user : User) : List TeamId :=
  (db.teamMemberships.filter fun r => r.userId = user.id).map TeamMembership.teamId

/-- **The lists are the rows that are keyed to the user**, each once and no others. -/
structure IsComplete (db : Database) (user : User) (e : UserDataExport) : Prop where
  teamMemberships : e.teamMemberships = db.teamMemberships.filter fun r => r.userId = user.id
  videosUploaded : e.videosUploaded = db.videos.filter fun r => r.uploadedBy = some user.id
  auditEvents : e.auditEvents = db.auditLogs.filter fun r => r.actorUserId = some user.id
  refreshSessions : e.refreshSessions = db.refreshSessions.filter fun r => r.userId = user.id
  emailVerificationTokens : e.emailVerificationTokens =
    db.emailVerificationTokens.filter fun r => r.userId = user.id
  passwordResetTokens : e.passwordResetTokens =
    db.passwordResetTokens.filter fun r => r.userId = user.id
  billingAccountsOwned : e.billingAccountsOwned =
    db.billingAccounts.filter fun r => r.ownerUserId = some user.id
  usageEventsForMemberTeams : e.usageEventsForMemberTeams =
    db.usageEvents.filter (UsageEvent.isOf (db.memberTeams user))
  teamPrivacyConsentsRecorded : e.teamPrivacyConsentsRecorded =
    db.teamPrivacyConsents.filter fun r => r.recordedBy = some user.id
  cspReportsAttributed : e.cspReportsAttributed =
    db.cspReports.filter fun r => r.userId = some user.id

/-- The request returns a complete export. -/
def ExportIsComplete (c : Catalog TableName PolicyName Clause) (user : User) (db : Database) :
    Prop :=
  ∃ e, (exportMyData c user (authenticated db user)).1 = .ok e ∧ IsComplete db user e

/-- The team is there and not deleted. -/
def Database.showsTeam (db : Database) (team : TeamId) : Bool :=
  db.teamVisibility.any fun v => v.1 = team && v.2.isNone

def Database.isActiveMember (db : Database) (user : User) (team : TeamId) : Bool :=
  db.teamMemberships.any fun m => m.teamId = team && m.userId = user.id && m.isActive

/-- The team is not deleted, and the user is an active member of it. -/
def Database.opensTeam (db : Database) (user : User) (team : TeamId) : Bool :=
  db.showsTeam team && db.isActiveMember user team

/-- **Nothing is hidden** of what the export is to contain. -/
structure NothingHidden (user : User) (db : Database) : Prop where
  teamMemberships : ∀ r ∈ db.teamMemberships, r.userId = user.id → db.showsTeam r.teamId = true
  videos : ∀ r ∈ db.videos, r.uploadedBy = some user.id → db.opensTeam user r.row.teamId = true
  auditLogs : ∀ r ∈ db.auditLogs, r.actorUserId = some user.id →
    ∀ team, r.teamId = some team → db.showsTeam team = true
  billingAccounts : ∀ r ∈ db.billingAccounts, r.ownerUserId = some user.id → r.deletedAt = none
  usageEvents : ∀ r ∈ db.usageEvents, r.isOf (db.memberTeams user) = false
  teamPrivacyConsents : ∀ r ∈ db.teamPrivacyConsents, r.recordedBy = some user.id →
    db.opensTeam user r.teamId = true

/-! ### What the session sees -/

section Seen

variable {R : Type} [HasColumns R] {user : User} {db : Database}

/-- The rows of a table that a query names and the session sees. -/
def seen (user : User) (db : Database) (t : TableOf R) (p : R → Bool) : List R :=
  (t.rows db).filter fun r =>
    p r && (installed t.name).admits (holdsIn (authenticated db user).settings db) .select r

theorem select_mem_privileges (table : TableName) : .select ∈ (installed table).privileges := by
  cases table <;> decide +kernel

theorem select_seen (t : TableOf R) (p : R → Bool) :
    select installed t p (authenticated db user) =
      (.ok (seen user db t p), authenticated db user) :=
  select_visible (select_mem_privileges _)

/-- A list is complete when the session sees all rows that belong to it. -/
theorem seen_eq_filter_iff {t : TableOf R} {p : R → Bool} :
    seen user db t p = (t.rows db).filter p ↔ ∀ r ∈ t.rows db, p r = true →
      (installed t.name).admits (holdsIn (authenticated db user).settings db) .select r = true :=
  filter_and_eq_filter_iff

theorem showsDeleted_eq_false (user : User) (db : Database) :
    (authenticated db user).settings.showsDeleted = false := by
  simp [authenticated, Settings.showsDeleted, Settings.unset]

/-- A session that does not show what is deleted. -/
theorem teamVisible_eq_showsTeam {s : Settings} (hs : s.showsDeleted = false) (db : Database)
    (team : TeamId) : db.teamVisible s (some (.number team)) = db.showsTeam team := by
  simp only [Database.teamVisible, Database.showsTeam, hs, Bool.or_false, Option.some.injEq,
    Value.number.injEq, eq_comm]

/-- The policies that look for an active membership find one of the user. -/
theorem holds_activeMember {s : Settings} (hs : s.showsDeleted = false)
    (huser : s.currentUserId = some user.id) {row : Column → Option Value} {team : TeamId}
    (hteam : row .teamId = some (.number team)) :
    (db.showsTeam team && (Clause.activeMember .teamId).holds s db row) =
      db.opensTeam user team := by
  rw [Bool.eq_iff_iff]
  simp only [Clause.holds, Database.opensTeam, Database.isActiveMember, Bool.and_eq_true,
    List.any_eq_true, decide_eq_true_eq, hteam, huser, Option.some.injEq, Value.number.injEq,
    teamVisible_eq_showsTeam hs]
  constructor
  · rintro ⟨hshown, m, hm, ⟨⟨hmt, hmu⟩, hactive⟩, -⟩
    exact ⟨hshown, m, hm, ⟨hmt.symm, hmu.symm⟩, hactive⟩
  · rintro ⟨hshown, m, hm, ⟨hmt, hmu⟩, hactive⟩
    refine ⟨hshown, m, hm, ⟨⟨hmt.symm, hmu.symm⟩, hactive⟩, ?_⟩
    rw [hmt]
    exact hshown

/-- A user sees the own memberships in teams that are not deleted. -/
theorem admits_select_membership {r : TeamMembership} (hr : r.userId = user.id) :
    (installed .teamMemberships).admits (holdsIn (authenticated db user).settings db) .select r =
      db.showsTeam r.teamId := by
  have hown : (Clause.eq .userId .userId).holds (authenticated db user).settings db
      (HasColumns.column r) = true := by
    simp [Clause.holds, HasColumns.column, Setting.value, authenticated, hr]
  rw [admits_select_teamTable (by decide), holdsIn, Clause.holds_and, teamAccess, Clause.holds_or,
    Clause.holds_or, hown, Bool.or_true, Bool.or_true, Bool.and_true]
  exact teamVisible_eq_showsTeam (showsDeleted_eq_false user db) db r.teamId

/-- A user sees the own audit events, unless their team is deleted. -/
theorem admits_select_auditLog {r : AuditLog} (hr : r.actorUserId = some user.id) :
    (installed .auditLogs).admits (holdsIn (authenticated db user).settings db) .select r =
      r.teamId.all db.showsTeam := by
  have hown : (Clause.eq .actorUserId .userId).holds (authenticated db user).settings db
      (HasColumns.column r) = true := by
    simp [Clause.holds, HasColumns.column, Setting.value, authenticated, hr]
  have haccess : holdsIn (authenticated db user).settings db (.or (.isNull .teamId)
      (.and (.teamVisible .teamId)
        (.or .adminRole (.or (.eq .teamId .teamId) (.eq .actorUserId .userId))))) r =
      r.teamId.all db.showsTeam := by
    simp only [holdsIn, Clause.holds_or, Clause.holds_and, hown, Bool.or_true, Bool.and_true]
    cases hteam : r.teamId with
    | none => simp [Clause.holds, HasColumns.column, hteam]
    | some team =>
      have hcolumn : HasColumns.column r .teamId = some (.number team) := by
        simp [HasColumns.column, hteam]
      rw [Clause.holds, Clause.holds, hcolumn,
        teamVisible_eq_showsTeam (showsDeleted_eq_false user db)]
      rfl
  rw [installed_eq .auditLogs (by decide), guardOf]
  simp [Guard.admits, Policy.appliesTo, haccess]

/-- A user sees the own accounts that are not deleted. -/
theorem admits_select_ownedAccount {r : BillingAccount} (hr : r.ownerUserId = some user.id) :
    (installed .billingAccounts).admits (holdsIn (authenticated db user).settings db) .select r =
      r.deletedAt.isNone := by
  have hown : (Clause.eq .ownerUserId .userId).holds (authenticated db user).settings db
      (HasColumns.column r) = true := by
    simp [Clause.holds, HasColumns.column, Setting.value, authenticated, hr]
  have haccess : holdsIn (authenticated db user).settings db (.and notDeleted (.or .adminRole
      (.or (.eq .id .billingAccountId) (.eq .ownerUserId .userId)))) r = r.deletedAt.isNone := by
    simp only [holdsIn, notDeleted, Clause.holds_or, Clause.holds_and, hown, Bool.or_true,
      Bool.and_true]
    simp [Clause.holds, HasColumns.column, showsDeleted_eq_false]
  rw [installed_eq .billingAccounts (by decide), guardOf]
  simp [Guard.admits, crud, Policy.appliesTo, haccess]

variable (hrole : user.role ≠ .admin)

include hrole

theorem not_adminRole {row : Column → Option Value} :
    Clause.adminRole.holds (authenticated db user).settings db row = false := by
  simpa [Clause.holds, authenticated] using hrole

/-- An ordinary user sees the rows of a team that is open. -/
theorem admits_select_openTable {table : TableName}
    (ht : table = .videos ∨ table = .teamPrivacyConsents) {r : R} {team : TeamId}
    (hteam : HasColumns.column r .teamId = some (.number team)) :
    (installed table).admits (holdsIn (authenticated db user).settings db) .select r =
      db.opensTeam user team := by
  have hcontext : (Clause.eq .teamId .teamId).holds (authenticated db user).settings db
      (HasColumns.column r) = false := by
    simp [Clause.holds, Setting.value, authenticated, Settings.unset, hteam]
  have hvisible : (Clause.teamVisible .teamId).holds (authenticated db user).settings db
      (HasColumns.column r) = db.showsTeam team := by
    rw [Clause.holds, hteam, teamVisible_eq_showsTeam (showsDeleted_eq_false user db)]
  have haccess : (teamAccess table).holds (authenticated db user).settings db
      (HasColumns.column r) = (Clause.activeMember .teamId).holds (authenticated db user).settings
        db (HasColumns.column r) := by
    rcases ht with rfl | rfl <;>
      simp only [teamAccess, Clause.holds_or, hcontext, not_adminRole hrole, Bool.false_or]
  have hwrite : table ∈ teamWriteTables := by
    rcases ht with rfl | rfl <;> decide
  rw [admits_select_teamTable hwrite, holdsIn, Clause.holds_and, hvisible, haccess,
    holds_activeMember (showsDeleted_eq_false user db) rfl hteam]

/-- **An ordinary user sees no usage event.** No account has been bound. -/
theorem admits_select_usageEvent (r : UsageEvent) :
    (installed .usageEvents).admits (holdsIn (authenticated db user).settings db) .select r =
      false := by
  have hcontext : (Clause.eq .billingAccountId .billingAccountId).holds
      (authenticated db user).settings db (HasColumns.column r) = false := by
    simp [Clause.holds, HasColumns.column, Setting.value, authenticated, Settings.unset]
  have haccess : holdsIn (authenticated db user).settings db usageEventsAccess r = false := by
    simp only [holdsIn, usageEventsAccess, Clause.holds_and, Clause.holds_or, not_adminRole hrole,
      hcontext, Bool.or_false, Bool.and_false]
  rw [installed_eq .usageEvents (by decide), guardOf]
  simp [Guard.admits, Policy.appliesTo, haccess]

omit hrole

/-- The tables on which the policies show a user everything that is keyed to the user. -/
theorem admits_select_own {r : R} (table : TableName)
    (h : (table = .refreshSessions ∨ table = .cspReports) ∨
      (table = .emailVerificationTokens ∨ table = .passwordResetTokens) ∧
        HasColumns.column r .userId = some (.number user.id)) :
    (installed table).admits (holdsIn (authenticated db user).settings db) .select r = true := by
  rcases h with (rfl | rfl) | ⟨htable, hr⟩
  · rw [installed_eq .refreshSessions (by decide), guardOf]
    rfl
  · rw [installed_eq .cspReports (by decide), guardOf]
    rfl
  · have hown : (Clause.eq .userId .userId).holds (authenticated db user).settings db
        (HasColumns.column r) = true := by
      simp [Clause.holds, Setting.value, authenticated, hr]
    rcases htable with rfl | rfl
    · have haccess : holdsIn (authenticated db user).settings db emailTokenAccess r = true := by
        rw [holdsIn, emailTokenAccess, Clause.holds_or, hown, Bool.true_or]
      rw [installed_eq .emailVerificationTokens (by decide), guardOf]
      simp [Guard.admits, crud, Policy.appliesTo, haccess]
    · have haccess : holdsIn (authenticated db user).settings db (.or resetTokenAccess .adminRole)
          r = true := by
        rw [holdsIn, resetTokenAccess, Clause.holds_or, Clause.holds_or, hown, Bool.true_or,
          Bool.true_or]
      rw [installed_eq .passwordResetTokens (by decide), guardOf]
      simp [Guard.admits, crud, Policy.appliesTo, haccess]

end Seen

/-! ### The export -/

section Main

variable {user : User} {db : Database}

/-- What the request returns to an ordinary user. -/
def exported (user : User) (db : Database) : UserDataExport where
  user := user
  teamMemberships := seen user db .teamMemberships fun r => r.userId = user.id
  teams := seen user db .teams fun r => r.id ∈ (seen user db .teamMemberships fun r =>
    r.userId = user.id).map TeamMembership.teamId
  videosUploaded := seen user db .videos fun r => r.uploadedBy = some user.id
  auditEvents := seen user db .auditLogs fun r => r.actorUserId = some user.id
  refreshSessions := seen user db .refreshSessions fun r => r.userId = user.id
  emailVerificationTokens := seen user db .emailVerificationTokens fun r => r.userId = user.id
  passwordResetTokens := seen user db .passwordResetTokens fun r => r.userId = user.id
  mfa := mfaEnrollment (seen user db .userTotpSecrets fun r => r.userId = user.id).head?
    (seen user db .mfaRecoveryCodes fun r => r.userId = user.id).length
    (seen user db .mfaRecoveryCodes fun r => r.userId = user.id && r.usedAt = none).length
  billingAccountsOwned := seen user db .billingAccounts fun r => r.ownerUserId = some user.id
  usageEventsForMemberTeams := []
  teamPrivacyConsentsRecorded := seen user db .teamPrivacyConsents fun r =>
    r.recordedBy = some user.id
  cspReportsAttributed := seen user db .cspReports fun r => r.userId = some user.id

theorem exportMyData_eq (hrole : user.role ≠ .admin) :
    (exportMyData installed user (authenticated db user)).1 = .ok (exported user db) := by
  have hnone (p : UsageEvent → Bool) : seen user db .usageEvents p = [] :=
    List.filter_eq_nil_iff.mpr fun r _ => by
      rw [show TableOf.usageEvents.name = .usageEvents from rfl, admits_select_usageEvent hrole]
      simp
  have husage (teams : List TeamId) : selectUsageEvents installed teams (authenticated db user) =
      (.ok [], authenticated db user) := by
    rw [selectUsageEvents, Transaction.ite_apply, select_seen, hnone]
    split <;> rfl
  rw [exportMyData, Transaction.bind_ok (select_seen _ _), Transaction.bind_ok (select_seen _ _),
    Transaction.bind_ok (select_seen _ _), Transaction.bind_ok (select_seen _ _),
    Transaction.bind_ok (select_seen _ _), Transaction.bind_ok (select_seen _ _),
    Transaction.bind_ok (select_seen _ _), Transaction.bind_ok (select_seen _ _),
    Transaction.bind_ok (select_seen _ _), Transaction.bind_ok (select_seen _ _),
    Transaction.bind_ok (select_seen _ _), Transaction.bind_ok (husage _),
    Transaction.bind_ok (select_seen _ _), Transaction.bind_ok (select_seen _ _),
    Transaction.bind_ok (writeAudit_none _ _), commit, Transaction.commit_bind]
  rfl

/-- **The export is complete exactly when nothing is hidden** from its user. -/
theorem exportIsComplete_iff (hrole : user.role ≠ .admin) :
    ExportIsComplete installed user db ↔ NothingHidden user db := by
  constructor
  · rintro ⟨e, he, h⟩
    rw [exportMyData_eq hrole] at he
    cases he
    refine ⟨fun r hr hown => ?_, fun r hr hown => ?_, fun r hr hown team hteam => ?_,
      fun r hr hown => ?_, fun r hr => ?_, fun r hr hown => ?_⟩
    · rw [← admits_select_membership hown]
      exact seen_eq_filter_iff.mp h.teamMemberships r hr (decide_eq_true hown)
    · rw [← admits_select_openTable hrole (.inl rfl) (r := r) rfl]
      exact seen_eq_filter_iff.mp h.videosUploaded r hr (decide_eq_true hown)
    · have hseen := seen_eq_filter_iff.mp h.auditEvents r hr (decide_eq_true hown)
      rw [show TableOf.auditLogs.name = .auditLogs from rfl, admits_select_auditLog hown,
        hteam] at hseen
      exact hseen
    · have hseen := seen_eq_filter_iff.mp h.billingAccountsOwned r hr (decide_eq_true hown)
      rw [show TableOf.billingAccounts.name = .billingAccounts from rfl,
        admits_select_ownedAccount hown] at hseen
      exact Option.isNone_iff_eq_none.mp hseen
    · have hnone := List.filter_eq_nil_iff.mp h.usageEventsForMemberTeams.symm r hr
      exact Bool.eq_false_iff.mpr hnone
    · rw [← admits_select_openTable hrole (.inr rfl) (r := r) rfl]
      exact seen_eq_filter_iff.mp h.teamPrivacyConsentsRecorded r hr (decide_eq_true hown)
  · intro h
    refine ⟨_, exportMyData_eq hrole, ?_, ?_, ?_, ?_, ?_, ?_, ?_, ?_, ?_, ?_⟩
    · refine seen_eq_filter_iff.mpr fun r hr hown => ?_
      rw [show TableOf.teamMemberships.name = .teamMemberships from rfl,
        admits_select_membership (of_decide_eq_true hown)]
      exact h.teamMemberships r hr (of_decide_eq_true hown)
    · exact seen_eq_filter_iff.mpr fun r hr hown =>
        (admits_select_openTable hrole (.inl rfl) (r := r) rfl).trans
          (h.videos r hr (of_decide_eq_true hown))
    · refine seen_eq_filter_iff.mpr fun r hr hown => ?_
      rw [show TableOf.auditLogs.name = .auditLogs from rfl,
        admits_select_auditLog (of_decide_eq_true hown), Option.all_eq_true_iff_get]
      exact fun hsome => h.auditLogs r hr (of_decide_eq_true hown) _ (Option.some_get hsome).symm
    · exact seen_eq_filter_iff.mpr fun r _ _ => admits_select_own .refreshSessions (.inl (.inl rfl))
    · exact seen_eq_filter_iff.mpr fun r _ hown => admits_select_own .emailVerificationTokens
        (.inr ⟨.inl rfl, congrArg _ (congrArg _ (of_decide_eq_true hown))⟩)
    · exact seen_eq_filter_iff.mpr fun r _ hown => admits_select_own .passwordResetTokens
        (.inr ⟨.inr rfl, congrArg _ (congrArg _ (of_decide_eq_true hown))⟩)
    · refine seen_eq_filter_iff.mpr fun r hr hown => ?_
      rw [show TableOf.billingAccounts.name = .billingAccounts from rfl,
        admits_select_ownedAccount (of_decide_eq_true hown), Option.isNone_iff_eq_none]
      exact h.billingAccounts r hr (of_decide_eq_true hown)
    · exact (List.filter_eq_nil_iff.mpr fun r hr => by simp [h.usageEvents r hr]).symm
    · exact seen_eq_filter_iff.mpr fun r hr hown =>
        (admits_select_openTable hrole (.inr rfl) (r := r) rfl).trans
          (h.teamPrivacyConsents r hr (of_decide_eq_true hown))
    · exact seen_eq_filter_iff.mpr fun r _ _ => admits_select_own .cspReports (.inl (.inr rfl))

/-- **A coach who has uploaded a video.** The usage event of the upload is not exported. -/
theorem exists_not_exportIsComplete : ∃ db user, user.role = .coach ∧ db.users = [user] ∧
    db.teamMemberships = [⟨0, 0, user.id, .headCoach, none, true⟩] ∧
    db.teamVisibility = [(0, none)] ∧ ¬ ExportIsComplete installed user db := by
  refine ⟨{ Database.empty with
      users := [.plain 0 "coach@example.com" .coach]
      teams := [⟨0, "code", true, none⟩]
      teamVisibility := [(0, none)]
      teamMemberships := [⟨0, 0, 0, .headCoach, none, true⟩]
      billingAccounts := [⟨7, some 0, none, .active, none⟩]
      accountTeamLinks := [⟨7, 0⟩]
      usageEvents := [⟨0, 7, some 0, .videoUploadInitiated, 1, 3⟩] },
    .plain 0 "coach@example.com" .coach, rfl, rfl, rfl, rfl, ?_⟩
  rintro ⟨e, he, h⟩
  rw [exportMyData_eq (by decide)] at he
  cases he
  exact absurd h.usageEventsForMemberTeams (by decide)

/-- A member of a team that has uploaded nothing yet. -/
theorem exists_exportIsComplete : ∃ db user, db.memberTeams user = [0] ∧
    ExportIsComplete installed user db := by
  refine ⟨{ Database.empty with
      users := [.plain 0 "player@example.com" .player]
      teams := [⟨0, "code", true, none⟩]
      teamVisibility := [(0, none)]
      teamMemberships := [⟨0, 0, 0, .player, some 7, true⟩]
      auditLogs := [⟨.teamJoinSucceeded, some 0, some 0⟩] },
    .plain 0 "player@example.com" .player, rfl, ?_⟩
  refine (exportIsComplete_iff (by decide)).mpr ⟨by decide, by decide, ?_, by decide, by decide,
    by decide⟩
  intro r hr hown team hteam
  rw [List.mem_singleton.mp hr] at hteam
  cases hteam
  rfl

end Main

end NextBallUp.Rls
