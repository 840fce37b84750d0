import NextBallUp.Rls.Schema

/-!
# The installed policies

What the migrations of `alembic/versions` do to the policies and to the privileges of the runtime
role `nextballup_app`, statement by statement, and what they leave installed. A policy is named by
the suffix of its name in the source, where the name of its table stands before it.

## What is deliberately absent

`FORCE ROW LEVEL SECURITY`, which subjects the owner of a table to its policies: the runtime role
owns none. `ALTER DEFAULT PRIVILEGES`, whose grants each later migration repeats for the tables it
creates. Everything that does not change who may do what: columns, indexes and constraints.

## Main definitions

* `m0001`, …, `m0026`: the migrations, by their revision
* `installed`: the guards when all of them have run

## Main results

* `installed_teamTable`, `installed_eq`: the guards, table by table
-/

namespace NextBallUp.Rls

open RowSecurity Command

inductive PolicyName
  | tenantIsolation | selectAccess | insertContext | updateContext | deleteContext | writeContext
  | userAccess | insertOwner | updateAccess | deleteAdmin
  deriving DecidableEq, Repr

abbrev Statement := Ddl TableName PolicyName Clause

abbrev TableGuard := Guard PolicyName Clause

/-! ### The ways in which the migrations write a policy -/

/-- `FOR SELECT USING (…)` -/
def selectPolicy (table : TableName) (qual : Clause) : Statement :=
  .createPolicy table ⟨.selectAccess, some select, some qual, none⟩

/-- `FOR INSERT WITH CHECK (…)` -/
def insertPolicy (table : TableName) (check : Clause) : Statement :=
  .createPolicy table ⟨.insertContext, some insert, none, some check⟩

/-- `FOR UPDATE USING (…) WITH CHECK (…)`, with the same condition. -/
def updatePolicy (table : TableName) (c : Clause) : Statement :=
  .createPolicy table ⟨.updateContext, some update, some c, some c⟩

/-- `FOR DELETE USING (…)` -/
def deletePolicy (table : TableName) (qual : Clause) : Statement :=
  .createPolicy table ⟨.deleteContext, some delete, some qual, none⟩

/-- `FOR ALL USING (…) WITH CHECK (…)`, with the same condition. -/
def writePolicy (table : TableName) (name : PolicyName) (c : Clause) : Statement :=
  .createPolicy table ⟨name, none, some c, some c⟩

/-- `_team_id_select_policy` -/
def teamIdSelectPolicy (table : TableName) : Statement :=
  selectPolicy table (.or (.eq .teamId .teamId) (.activeMember .teamId))

/-- The three policies that ask for the current team. -/
def contextPolicies (table : TableName) (c : Clause) : List Statement :=
  [insertPolicy table c, updatePolicy table c, deletePolicy table c]

/-- `_team_id_write_policies` -/
def teamIdWritePolicies (table : TableName) : List Statement :=
  contextPolicies table (.eq .teamId .teamId)

/-- `GRANT SELECT, INSERT, UPDATE, DELETE` to the runtime role. -/
def grantRuntime (table : TableName) : Statement := .grant table Command.all

/-! ### The migrations -/

def m0001 : List Statement :=
  [.enableRowSecurity .teams, .enableRowSecurity .teamMemberships, .enableRowSecurity .auditLogs,
    .createPolicy .teams ⟨.tenantIsolation, none, some (.eq .id .teamId), none⟩,
    .createPolicy .teamMemberships ⟨.tenantIsolation, none, some (.eq .teamId .teamId), none⟩,
    .createPolicy .auditLogs
      ⟨.tenantIsolation, none, some (.or (.isNull .teamId) (.eq .teamId .teamId)), none⟩]

def m0002 : List Statement :=
  [.enableRowSecurity .teamInvites,
    .createPolicy .teamInvites ⟨.tenantIsolation, none, some (.eq .teamId .teamId), none⟩]

/-- Rows of `audit_logs` that the role may insert, and in this migration also those it may read. -/
def auditLogsAccess : Clause :=
  .or (.isNull .teamId) (.or (.eq .teamId .teamId) (.eq .actorUserId .userId))

def m0003 : List Statement :=
  [.dropPolicy .teams .tenantIsolation, .dropPolicy .teamMemberships .tenantIsolation,
    .dropPolicy .auditLogs .tenantIsolation, .dropPolicy .teamInvites .tenantIsolation,
    selectPolicy .teams
      (.or (.eq .id .teamId) (.or (.eq .inviteCode .joinInviteCode) (.activeMember .id)))] ++
  contextPolicies .teams (.eq .id .teamId) ++
  [selectPolicy .teamMemberships (.or (.eq .teamId .teamId) (.eq .userId .userId))] ++
  contextPolicies .teamMemberships (.eq .teamId .teamId) ++
  [selectPolicy .teamInvites (.or (.eq .teamId .teamId) (.eq .inviteCode .joinInviteCode))] ++
  contextPolicies .teamInvites (.eq .teamId .teamId) ++
  [selectPolicy .auditLogs auditLogsAccess, insertPolicy .auditLogs auditLogsAccess]

def m0004 : List Statement :=
  [TableName.games, .videos, .processingJobs].flatMap fun table =>
    .enableRowSecurity table :: teamIdSelectPolicy table :: teamIdWritePolicies table

def m0005 : List Statement :=
  [TableName.teams, .teamMemberships, .teamInvites, .auditLogs, .games, .videos,
    .processingJobs].map (.dropPolicy · .selectAccess) ++
  [selectPolicy .teams (.or .adminRole
      (.or (.eq .id .teamId) (.or (.eq .inviteCode .joinInviteCode) (.activeMember .id)))),
    selectPolicy .teamMemberships
      (.or .adminRole (.or (.eq .teamId .teamId) (.eq .userId .userId))),
    selectPolicy .teamInvites
      (.or .adminRole (.or (.eq .teamId .teamId) (.eq .inviteCode .joinInviteCode))),
    selectPolicy .auditLogs (.or .adminRole auditLogsAccess)] ++
  [TableName.games, .videos, .processingJobs].map fun table =>
    selectPolicy table (.or .adminRole (.or (.eq .teamId .teamId) (.activeMember .teamId)))

/-- All tables that exist by then. -/
def m0008 : List Statement :=
  [TableName.users, .teams, .teamMemberships, .auditLogs, .teamInvites, .games, .videos,
    .processingJobs].map grantRuntime

def m0009 : List Statement := [grantRuntime .refreshSessions]

def m0010 : List Statement :=
  [.enableRowSecurity .teamPrivacyConsents, teamIdSelectPolicy .teamPrivacyConsents] ++
  teamIdWritePolicies .teamPrivacyConsents ++ [grantRuntime .teamPrivacyConsents]

def m0011 : List Statement :=
  [TableName.videoFrameClocks, .videoObjectDetections, .videoTracks, .videoEvents,
    .videoMetrics].flatMap fun table =>
      [grantRuntime table, .enableRowSecurity table, teamIdSelectPolicy table] ++
        teamIdWritePolicies table

def m0012 : List Statement := [grantRuntime .emailVerificationTokens]

def m0013 : List Statement :=
  [.enableRowSecurity .billingAccounts,
    selectPolicy .billingAccounts
      (.or .adminRole (.or (.eq .id .billingAccountId) (.eq .ownerUserId .userId))),
    writePolicy .billingAccounts .writeContext (.or .adminRole (.eq .id .billingAccountId))] ++
  [TableName.subscriptions, .usageEvents, .accountTeamLinks].flatMap (fun table =>
    [.enableRowSecurity table,
      selectPolicy table (.or .adminRole (.eq .billingAccountId .billingAccountId)),
      writePolicy table .writeContext
        (.or .adminRole (.eq .billingAccountId .billingAccountId))]) ++
  [TableName.plans, .billingAccounts, .accountTeamLinks, .subscriptions, .usageEvents].map
    grantRuntime

def m0015 : List Statement := [grantRuntime .userTotpSecrets, grantRuntime .mfaRecoveryCodes]

/-- The owner of a token, and whoever knows it. -/
def emailTokenAccess : Clause :=
  .or (.eq .userId .userId) (.eq .tokenHash .emailVerificationTokenHash)

def m0016 : List Statement :=
  [.enableRowSecurity .emailVerificationTokens,
    selectPolicy .emailVerificationTokens emailTokenAccess,
    .createPolicy .emailVerificationTokens
      ⟨.insertOwner, some insert, none, some (.eq .userId .userId)⟩,
    .createPolicy .emailVerificationTokens
      ⟨.updateAccess, some update, some emailTokenAccess, some emailTokenAccess⟩] ++
  [TableName.userTotpSecrets, .mfaRecoveryCodes].flatMap (fun table =>
    [.enableRowSecurity table,
      writePolicy table .userAccess (.or .adminRole (.eq .userId .userId))]) ++
  [.dropPolicy .accountTeamLinks .selectAccess, .dropPolicy .accountTeamLinks .writeContext,
    selectPolicy .accountTeamLinks (.or .adminRole
      (.or (.eq .billingAccountId .billingAccountId) (.eq .teamId .teamId))),
    writePolicy .accountTeamLinks .writeContext (.or .adminRole
      (.and (.eq .billingAccountId .billingAccountId) (.eq .teamId .teamId)))]

def m0018 : List Statement := [grantRuntime .cspReports]

/-- `_account_scoped_select_policy` and `_account_scoped_write_policy`, of `subscriptions`. -/
def subscriptionsAccess : Clause :=
  .and (.billingAccountVisible .billingAccountId)
    (.or .adminRole (.eq .billingAccountId .billingAccountId))

/-- The team and the account of a link can be seen. -/
def linkVisible : Clause := .and (.billingAccountVisible .billingAccountId) (.teamVisible .teamId)

/-- The same two, of `usage_events`. -/
def usageEventsAccess : Clause :=
  .and (.billingAccountVisible .billingAccountId)
    (.and (.or (.isNull .teamId) (.teamVisible .teamId))
      (.or .adminRole (.eq .billingAccountId .billingAccountId)))

/-- `_team_select_policy` -/
def teamSelectPolicy (table : TableName) (includeAdmin : Bool) : Statement :=
  let access := Clause.or (.eq .teamId .teamId) (.activeMember .teamId)
  selectPolicy table (.and (.teamVisible .teamId) (if includeAdmin then .or .adminRole access
    else access))

/-- `_replace_policies(soft_delete=True)`; the tables of teams are those of `TEAM_TABLES`. -/
def m0021 : List Statement :=
  [TableName.teams, .teamMemberships, .teamInvites, .auditLogs, .games, .videos, .processingJobs,
    .teamPrivacyConsents, .videoFrameClocks, .videoObjectDetections, .videoTracks, .videoEvents,
    .videoMetrics, .accountTeamLinks, .billingAccounts, .subscriptions,
    .usageEvents].flatMap (fun table =>
      [.dropPolicy table .selectAccess, .dropPolicy table .writeContext]) ++
  [selectPolicy .teams (.and (.teamVisible .id) (.or .adminRole
      (.or (.eq .id .teamId) (.or (.eq .inviteCode .joinInviteCode) (.activeMember .id))))),
    selectPolicy .teamMemberships (.and (.teamVisible .teamId)
      (.or .adminRole (.or (.eq .teamId .teamId) (.eq .userId .userId)))),
    selectPolicy .teamInvites (.and (.teamVisible .teamId)
      (.or .adminRole (.or (.eq .teamId .teamId) (.eq .inviteCode .joinInviteCode)))),
    selectPolicy .auditLogs (.or (.isNull .teamId) (.and (.teamVisible .teamId)
      (.or .adminRole (.or (.eq .teamId .teamId) (.eq .actorUserId .userId)))))] ++
  [TableName.games, .videos, .processingJobs].map (teamSelectPolicy · true) ++
  [TableName.teamPrivacyConsents, .videoFrameClocks, .videoObjectDetections, .videoTracks,
    .videoEvents, .videoMetrics].map (teamSelectPolicy · false) ++
  [selectPolicy .accountTeamLinks (.and linkVisible (.or .adminRole
      (.or (.eq .billingAccountId .billingAccountId) (.eq .teamId .teamId)))),
    writePolicy .accountTeamLinks .writeContext (.and linkVisible (.or .adminRole
      (.and (.eq .billingAccountId .billingAccountId) (.eq .teamId .teamId)))),
    selectPolicy .billingAccounts (.and (.billingAccountVisible .id)
      (.or .adminRole (.or (.eq .id .billingAccountId) (.eq .ownerUserId .userId)))),
    writePolicy .billingAccounts .writeContext (.and (.billingAccountVisible .id)
      (.or .adminRole (.eq .id .billingAccountId))),
    selectPolicy .subscriptions subscriptionsAccess,
    writePolicy .subscriptions .writeContext subscriptionsAccess,
    selectPolicy .usageEvents usageEventsAccess,
    writePolicy .usageEvents .writeContext usageEventsAccess]

def m0022 : List Statement :=
  [.createPolicy .emailVerificationTokens ⟨.deleteAdmin, some delete, some .adminRole, none⟩]

/-- `TEAM_WRITE_TABLES` -/
def teamWriteTables : List TableName :=
  [.teamMemberships, .teamInvites, .games, .videos, .processingJobs, .teamPrivacyConsents,
    .videoFrameClocks, .videoObjectDetections, .videoTracks, .videoEvents, .videoMetrics]

/-- `_visibility_clause` -/
def visibilityClause (column : Column) : Clause := .and (.teamVisible column) (.eq column .teamId)

/-- `_replace_team_write_policies(soft_delete=True)` and `_revoke_append_only_mutation_grants()`. -/
def m0023 : List Statement :=
  (.teams :: teamWriteTables).flatMap (fun table =>
    [.dropPolicy table .insertContext, .dropPolicy table .updateContext,
      .dropPolicy table .deleteContext]) ++
  [insertPolicy .teams (.eq .id .teamId), updatePolicy .teams (visibilityClause .id),
    deletePolicy .teams (visibilityClause .id)] ++
  teamWriteTables.flatMap (contextPolicies · (visibilityClause .teamId)) ++
  [TableName.auditLogs, .cspReports, .usageEvents].map (.revoke · [update, delete])

/-- The owner of a token, and whoever knows it. -/
def resetTokenAccess : Clause :=
  .or (.eq .userId .userId) (.eq .tokenHash .passwordResetTokenHash)

def m0025 : List Statement :=
  [grantRuntime .passwordResetTokens, .enableRowSecurity .passwordResetTokens,
    selectPolicy .passwordResetTokens (.or resetTokenAccess .adminRole),
    .createPolicy .passwordResetTokens
      ⟨.insertOwner, some insert, none, some (.eq .userId .userId)⟩,
    .createPolicy .passwordResetTokens
      ⟨.updateAccess, some update, some resetTokenAccess, some resetTokenAccess⟩,
    .createPolicy .passwordResetTokens ⟨.deleteAdmin, some delete, some .adminRole, none⟩]

/-- The row is not deleted, or deleted rows are shown. -/
def notDeleted : Clause := .or (.isNull .deletedAt) .includeDeleted

def billingAccountWrite : Clause := .or .adminRole (.eq .id .billingAccountId)

/-- `_replace_teams_select_policy` and `_replace_billing_account_policies`, with
`use_direct_deleted_at=True`. -/
def m0026 : List Statement :=
  [.dropPolicy .teams .selectAccess,
    selectPolicy .teams (.and notDeleted (.or .adminRole
      (.or (.eq .id .teamId) (.or (.eq .inviteCode .joinInviteCode) (.activeMember .id)))))] ++
  [PolicyName.selectAccess, .writeContext, .insertContext, .updateContext,
    .deleteContext].map (.dropPolicy .billingAccounts ·) ++
  [selectPolicy .billingAccounts (.and notDeleted
      (.or .adminRole (.or (.eq .id .billingAccountId) (.eq .ownerUserId .userId)))),
    insertPolicy .billingAccounts billingAccountWrite,
    updatePolicy .billingAccounts (.and notDeleted billingAccountWrite),
    deletePolicy .billingAccounts (.and notDeleted billingAccountWrite)]

/-- The guards that the runtime role meets. -/
@[irreducible]
def installed : Catalog TableName PolicyName Clause :=
  Catalog.migrate (m0001 ++ m0002 ++ m0003 ++ m0004 ++ m0005 ++ m0008 ++ m0009 ++ m0010 ++ m0011 ++
    m0012 ++ m0013 ++ m0015 ++ m0016 ++ m0018 ++ m0021 ++ m0022 ++ m0023 ++ m0025 ++ m0026)

/-! ### What is installed -/

/-- A guarded table on which the role has all privileges. -/
def crud (policies : List (Policy PolicyName Clause)) : TableGuard := ⟨true, policies, Command.all⟩

/-- The policies by which rows are written, all with the same condition. -/
def contextGuard (c : Clause) : List (Policy PolicyName Clause) :=
  [⟨.insertContext, some insert, none, some c⟩, ⟨.updateContext, some update, some c, some c⟩,
    ⟨.deleteContext, some delete, some c, none⟩]

/-- What a visible row of a team asks of its reader. -/
def teamAccess : TableName → Clause
  | .teamMemberships => .or .adminRole (.or (.eq .teamId .teamId) (.eq .userId .userId))
  | .teamInvites => .or .adminRole (.or (.eq .teamId .teamId) (.eq .inviteCode .joinInviteCode))
  | .games | .videos | .processingJobs =>
    .or .adminRole (.or (.eq .teamId .teamId) (.activeMember .teamId))
  | _ => .or (.eq .teamId .teamId) (.activeMember .teamId)

/-- The tables of a team: whoever reads a row has to see the team, and whoever writes one has to
have bound the team. -/
theorem installed_teamTable : ∀ t ∈ teamWriteTables, installed t =
    crud (⟨.selectAccess, some select, some (.and (.teamVisible .teamId) (teamAccess t)), none⟩ ::
      contextGuard (visibilityClause .teamId)) := by
  decide +kernel

/-- What guards a table that does not belong to a team. -/
def guardOf : TableName → TableGuard
  | .teams => crud
    [⟨.insertContext, some insert, none, some (.eq .id .teamId)⟩,
      ⟨.updateContext, some update, some (visibilityClause .id), some (visibilityClause .id)⟩,
      ⟨.deleteContext, some delete, some (visibilityClause .id), none⟩,
      ⟨.selectAccess, some select, some (.and notDeleted (.or .adminRole (.or (.eq .id .teamId)
        (.or (.eq .inviteCode .joinInviteCode) (.activeMember .id))))), none⟩]
  | .auditLogs =>
    ⟨true, [⟨.insertContext, some insert, none, some auditLogsAccess⟩,
      ⟨.selectAccess, some select, some (.or (.isNull .teamId) (.and (.teamVisible .teamId)
        (.or .adminRole (.or (.eq .teamId .teamId) (.eq .actorUserId .userId))))), none⟩],
      [select, insert]⟩
  | .emailVerificationTokens => crud
    [⟨.selectAccess, some select, some emailTokenAccess, none⟩,
      ⟨.insertOwner, some insert, none, some (.eq .userId .userId)⟩,
      ⟨.updateAccess, some update, some emailTokenAccess, some emailTokenAccess⟩,
      ⟨.deleteAdmin, some delete, some .adminRole, none⟩]
  | .passwordResetTokens => crud
    [⟨.selectAccess, some select, some (.or resetTokenAccess .adminRole), none⟩,
      ⟨.insertOwner, some insert, none, some (.eq .userId .userId)⟩,
      ⟨.updateAccess, some update, some resetTokenAccess, some resetTokenAccess⟩,
      ⟨.deleteAdmin, some delete, some .adminRole, none⟩]
  | .billingAccounts => crud
    [⟨.selectAccess, some select, some (.and notDeleted (.or .adminRole
        (.or (.eq .id .billingAccountId) (.eq .ownerUserId .userId)))), none⟩,
      ⟨.insertContext, some insert, none, some billingAccountWrite⟩,
      ⟨.updateContext, some update, some (.and notDeleted billingAccountWrite),
        some (.and notDeleted billingAccountWrite)⟩,
      ⟨.deleteContext, some delete, some (.and notDeleted billingAccountWrite), none⟩]
  | .accountTeamLinks => crud
    [⟨.selectAccess, some select, some (.and linkVisible (.or .adminRole
        (.or (.eq .billingAccountId .billingAccountId) (.eq .teamId .teamId)))), none⟩,
      ⟨.writeContext, none, some (.and linkVisible (.or .adminRole
        (.and (.eq .billingAccountId .billingAccountId) (.eq .teamId .teamId)))),
        some (.and linkVisible (.or .adminRole
          (.and (.eq .billingAccountId .billingAccountId) (.eq .teamId .teamId))))⟩]
  | .subscriptions => crud
    [⟨.selectAccess, some select, some subscriptionsAccess, none⟩,
      ⟨.writeContext, none, some subscriptionsAccess, some subscriptionsAccess⟩]
  | .usageEvents =>
    ⟨true, [⟨.selectAccess, some select, some usageEventsAccess, none⟩,
      ⟨.writeContext, none, some usageEventsAccess, some usageEventsAccess⟩],
      [select, insert]⟩
  -- The secret and the recovery codes are accessible to the user and to operators.
  | .userTotpSecrets | .mfaRecoveryCodes => crud
    [⟨.userAccess, none, some (.or .adminRole (.eq .userId .userId)),
      some (.or .adminRole (.eq .userId .userId))⟩]
  | .cspReports => ⟨false, [], [select, insert]⟩
  | .users | .refreshSessions | .plans => ⟨false, [], Command.all⟩
  | _ => ⟨false, [], []⟩

theorem installed_eq (t : TableName) (ht : t ∉ teamWriteTables) : installed t = guardOf t := by
  revert ht
  cases t <;> decide +kernel

end NextBallUp.Rls
