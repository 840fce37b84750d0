import NextBallUp.Rls.Export
import Mathlib.Algebra.Order.Ring.Int

/-!
# Quotas under the policies

`check_video_upload_quota` and `check_video_storage_quota` of `billing.py`, as the runtime role runs
them for a user who uploads to a team. Both bind the team and its billing account and then add up
rows of the whole account: entries of the ledger, and the sizes of videos.

A session that has bound a team sees the videos of that team, and of another team only if the user
is an active member of it. So the storage that an account is seen to use depends on who asks, and on
the team. Rows of deleted teams are seen by nobody.

## What is deliberately absent

The features of plans, and the prices and limits that the checks do not read. Other sessions.

## Main definitions

* `checkVideoUploadQuota`, `checkVideoStorageQuota`: the checks
* `uploadTotal`, `storageTotal`: what the queries define over all rows
* `UsageIsIndependent`: two requesters are told the same, which is these totals
* `SeesUsage`: the condition on a requester

## Main results

* `Requester.toldUsage_eq`: what a requester is told
* `usageIsIndependent_iff`: **usage does not depend on who asks exactly when both see all usage**
* `exists_not_usageIsIndependent`: two coaches of two teams of one account
-/

namespace NextBallUp.Rls

open RowSecurity

/-- The quota that a check is about. -/
inductive QuotaKey
  | maxVideosPerMonth | maxStorageBytes
  deriving DecidableEq, Repr

structure QuotaCheck where
  planCode : Option String
  quotaKey : QuotaKey
  used : ℤ
  /-- `none`: unlimited. -/
  limit : Option ℤ
  allowed : Bool
  deriving DecidableEq, Repr

/-- What is used when a team has no account yet. -/
structure Provision where
  accountId : AccountId
  subscriptionId : ℕ
  billingDefaultPlanCode : String
  now : Time

/-- The answer for an account that is not active or has no current subscription. -/
def deniedCheck (quotaKey : QuotaKey) : QuotaCheck := ⟨none, quotaKey, 0, some 0, false⟩

/-- `ORDER BY current_period_start DESC`, and the first row of it. -/
def latestSubscription (rows : List Subscription) : Option Subscription :=
  rows.foldl (fun latest r => match latest with
    | none => some r
    | some s => if s.currentPeriodStart < r.currentPeriodStart then some r else some s) none

/-- The `WHERE` clause of the query for subscriptions. -/
def Subscription.isCurrent (account : AccountId) (r : Subscription) : Bool :=
  r.billingAccountId = account && (r.status = .trialing || r.status = .active)

/-- The `WHERE` clause of `videos_used_this_period`. -/
def UsageEvent.isUpload (account : AccountId) (periodStart : Time) (r : UsageEvent) : Bool :=
  r.billingAccountId = account && r.eventKey = .videoUploadInitiated && periodStart ≤ r.occurredAt

def sumOfQuantities (rows : List UsageEvent) : ℤ := (rows.map UsageEvent.quantity).sum

/-- What a video contributes to the sum over the join with the links. -/
def VideoRow.bytes (links : List AccountTeamLink) (v : VideoRow) : ℕ :=
  (links.filter fun l => l.teamId = v.row.teamId).length * v.row.fileSizeBytes

section Requests

variable (c : Catalog TableName PolicyName Clause)

/-- `set_billing_account_context` -/
def setBillingAccountContext (accountId : Option AccountId) : Request Unit :=
  .set fun s => { s with currentBillingAccountId := accountId }

/-- The end of `get_or_create_account_for_team`, when there is no account to return. -/
def provisionAccount (team : TeamId) (ownerUserId : Option UserId) (d : Provision) :
    Request BillingAccount := do
  setBillingAccountContext (some d.accountId)
  let account : BillingAccount := ⟨d.accountId, ownerUserId, none, .active, none⟩
  insert c .billingAccounts account
  setBillingAccountContext (some d.accountId)
  insert c .accountTeamLinks ⟨d.accountId, team⟩
  let plans ← select c .plans fun r => r.code = d.billingDefaultPlanCode
  match plans.head? with
  | none => throw .runtimeError
  | some plan => do
    insert c .subscriptions
      { id := d.subscriptionId
        billingAccountId := d.accountId
        planId := plan.id
        status := .active
        currentPeriodStart := d.now
        planCodeAtActivation := plan.code
        maxVideosPerMonthAtActivation := plan.maxVideosPerMonth
        maxStorageGbAtActivation := plan.maxStorageGb }
    return account

/-- `get_or_create_account_for_team` -/
def getOrCreateAccountForTeam (team : TeamId) (ownerUserId : Option UserId) (d : Provision) :
    Request BillingAccount := do
  setTenantContext (some team)
  let lockedTeams ← selectForUpdate c .teams fun r => r.id = team
  match lockedTeams.head? with
  | none => throw .runtimeError
  | some _ => do
    let links ← select c .accountTeamLinks fun r => r.teamId = team
    match links.head? with
    | none => provisionAccount c team ownerUserId d
    | some link => do
      setBillingAccountContext (some link.billingAccountId)
      let accounts ← select c .billingAccounts fun r => r.id = link.billingAccountId
      match accounts.head? with
      | none => provisionAccount c team ownerUserId d
      | some account => return account

/-- `_lock_active_billing_account` -/
def lockActiveBillingAccount (account : AccountId) : Request (Option BillingAccount) := do
  let rows ← selectForUpdate c .billingAccounts fun r =>
    r.id = account && r.status = .active && r.deletedAt = none
  return rows.head?

/-- `get_active_subscription`, but for the plan. The checks would read it of a subscription without
`plan_code_at_activation` or `plan_quotas_at_activation`, but neither column is ever null. -/
def getActiveSubscription (account : AccountId) : Request (Option Subscription) := do
  let rows ← select c .billingAccounts fun r => r.id = account
  match rows.head?.filter fun r => r.deletedAt = none && r.status = .active with
  | none => return none
  | some _ => do
    let subscriptions ← select c .subscriptions (Subscription.isCurrent account)
    return latestSubscription subscriptions

/-- `videos_used_this_period` -/
def videosUsedThisPeriod (account : AccountId) (periodStart : Time) : Request ℤ := do
  let rows ← select c .usageEvents (UsageEvent.isUpload account periodStart)
  return max 0 (sumOfQuantities rows)

/-- `storage_bytes_reserved` -/
def storageBytesReserved (account : AccountId) : Request ℕ := do
  let links ← select c .accountTeamLinks fun r => r.billingAccountId = account
  let videos ← select c .videos fun r => r.row.status ≠ .failed
  return (videos.map (VideoRow.bytes links)).sum

/-- What both checks do first: the account, and its subscription if uploads are allowed at all. -/
def quotaContext (team : TeamId) (ownerUserId : UserId) (d : Provision) :
    Request (BillingAccount × Option Subscription) := do
  let account ← getOrCreateAccountForTeam c team (some ownerUserId) d
  let locked ← lockActiveBillingAccount c account.id
  match locked with
  | none => return (account, none)
  | some _ => do
    let subscription ← getActiveSubscription c account.id
    return (account, subscription)

/-- `check_video_upload_quota` -/
def checkVideoUploadQuota (team : TeamId) (ownerUserId : UserId) (d : Provision) :
    Request QuotaCheck := do
  let context ← quotaContext c team ownerUserId d
  match context with
  | (_, none) => return deniedCheck .maxVideosPerMonth
  | (account, some subscription) => do
    let used ← videosUsedThisPeriod c account.id subscription.currentPeriodStart
    let limit : Option ℤ := subscription.maxVideosPerMonthAtActivation.map Nat.cast
    return {
      planCode := some subscription.planCodeAtActivation
      quotaKey := .maxVideosPerMonth
      used := used
      limit := limit
      allowed := limit.all fun n => used < n }

/-- `check_video_storage_quota` -/
def checkVideoStorageQuota (team : TeamId) (ownerUserId : UserId) (d : Provision)
    (additionalBytes : ℕ) : Request QuotaCheck := do
  let context ← quotaContext c team ownerUserId d
  match context with
  | (_, none) => return deniedCheck .maxStorageBytes
  | (account, some subscription) => do
    let used ← storageBytesReserved c account.id
    let limit : Option ℤ := subscription.maxStorageGbAtActivation.map fun gb =>
      gb * 1024 * 1024 * 1024
    return {
      planCode := some subscription.planCodeAtActivation
      quotaKey := .maxStorageBytes
      used := used
      limit := limit
      allowed := limit.all fun n => (used : ℤ) + additionalBytes ≤ n }

end Requests

/-! ### Totals -/

/-- What `videos_used_this_period` defines over all entries. -/
def uploadTotal (db : Database) (account : AccountId) (periodStart : Time) : ℤ :=
  max 0 (sumOfQuantities (db.usageEvents.filter (UsageEvent.isUpload account periodStart)))

/-- What `storage_bytes_reserved` defines over all links and videos. -/
def storageTotal (db : Database) (account : AccountId) : ℕ :=
  ((db.videos.filter fun r => r.row.status ≠ .failed).map
    (VideoRow.bytes (db.accountTeamLinks.filter fun r => r.billingAccountId = account))).sum

/-- A user who uploads to a team of an active account. -/
structure Requester (db : Database) (account : BillingAccount) (subscription : Subscription)
    (user : User) (team : Team) : Prop where
  team_mem : team ∈ db.teams
  team_deletedAt : team.deletedAt = none
  team_shown : db.showsTeam team.id = true
  link_mem : ⟨account.id, team.id⟩ ∈ db.accountTeamLinks
  links : db.accountTeamLinks.Pairwise fun a b => TableOf.accountTeamLinks.conflicts a b = false
  account_mem : account ∈ db.billingAccounts
  accounts : db.billingAccounts.Pairwise fun a b => TableOf.billingAccounts.conflicts a b = false
  account_status : account.status = .active
  account_deletedAt : account.deletedAt = none
  account_shown : (account.id, none) ∈ db.billingAccountVisibility
  subscription : latestSubscription (db.subscriptions.filter (Subscription.isCurrent account.id)) =
    some subscription

/-- The figures that a requester is told who asks for so many bytes. -/
def toldUsage (c : Catalog TableName PolicyName Clause) (db : Database) (user : User) (team : Team)
    (d : Provision) (additionalBytes : ℕ) : Option (ℤ × ℤ) := do
  let s := authenticated db user
  let upload ← (checkVideoUploadQuota c team.id user.id d s).1.toOption
  let storage ← (checkVideoStorageQuota c team.id user.id d additionalBytes s).1.toOption
  return (upload.used, storage.used)

/-- **Usage does not depend on who asks.** Both requesters are told the totals of the account. -/
def UsageIsIndependent (c : Catalog TableName PolicyName Clause) (db : Database)
    (account : BillingAccount) (subscription : Subscription) (d : Provision) (additionalBytes : ℕ)
    (user₁ : User) (team₁ : Team) (user₂ : User) (team₂ : Team) : Prop :=
  toldUsage c db user₁ team₁ d additionalBytes = toldUsage c db user₂ team₂ d additionalBytes ∧
    toldUsage c db user₁ team₁ d additionalBytes =
      some (uploadTotal db account.id subscription.currentPeriodStart,
        (storageTotal db account.id : ℤ))

/-! ### The condition -/

/-- The entry is of a deleted team. -/
def Database.hidesEvent (db : Database) (r : UsageEvent) : Bool :=
  !r.teamId.all db.showsTeam

/-- The sum of the entries of deleted teams. -/
def hiddenUploads (db : Database) (account : AccountId) (periodStart : Time) : ℤ :=
  sumOfQuantities (db.usageEvents.filter fun r =>
    r.isUpload account periodStart && db.hidesEvent r)

/-- The user, who uploads to the team, sees the videos of another team. -/
def Database.seesVideosOf (db : Database) (user : User) (team : Team) (other : TeamId) : Bool :=
  db.showsTeam other &&
    (user.role = .admin || other = team.id || db.isActiveMember user other)

/-- The requester sees all usage of the account. The entries of deleted teams make no difference
either when they do not lift the sum above zero. -/
structure SeesUsage (db : Database) (account : BillingAccount) (subscription : Subscription)
    (user : User) (team : Team) : Prop where
  uploads : hiddenUploads db account.id subscription.currentPeriodStart = 0 ∨
    sumOfQuantities (db.usageEvents.filter
      (UsageEvent.isUpload account.id subscription.currentPeriodStart)) ≤
      min 0 (hiddenUploads db account.id subscription.currentPeriodStart)
  videos : ∀ v ∈ db.videos, v.row.status ≠ .failed → v.row.fileSizeBytes ≠ 0 →
    ⟨account.id, v.row.teamId⟩ ∈ db.accountTeamLinks → db.seesVideosOf user team v.row.teamId = true

/-! ### What the session sees -/

/-- The settings under which the figures are added up. -/
def quotaSettings (user : User) (team : TeamId) (account : AccountId) : Settings :=
  { Settings.unset with
    currentUserId := some user.id
    currentUserRole := some user.role
    currentTeamId := some team
    currentBillingAccountId := some account }

/-- The settings before the account is known. -/
def teamSettings (user : User) (team : TeamId) : Settings :=
  { quotaSettings user team 0 with currentBillingAccountId := none }

section Seen

variable {db : Database} {account : BillingAccount} {subscription : Subscription} {user : User}
  {team : Team} {s : Settings}

theorem Requester.billingAccountVisible (h : Requester db account subscription user team)
    (s : Settings) : db.billingAccountVisible s (some (.number account.id)) = true :=
  List.any_eq_true.mpr ⟨_, h.account_shown, by simp⟩

/-- The links of the account that can be seen once the account, or the team, is bound. -/
theorem Requester.admits_link (h : Requester db account subscription user team)
    (hs : s.showsDeleted = false) {r : AccountTeamLink} (hr : r.billingAccountId = account.id)
    (hbound : s.currentBillingAccountId = some account.id ∨ s.currentTeamId = some r.teamId) :
    (installed .accountTeamLinks).admits (holdsIn s db) .select r = db.showsTeam r.teamId := by
  have haccess : Clause.holds s db (HasColumns.column r)
      (.or (.eq .billingAccountId .billingAccountId) (.eq .teamId .teamId)) = true := by
    rw [Clause.holds_or]
    rcases hbound with hb | hb <;>
      simp [Clause.holds, HasColumns.column, Setting.value, hr, hb]
  have hvisible : Clause.holds s db (HasColumns.column r) linkVisible = db.showsTeam r.teamId := by
    rw [linkVisible, Clause.holds_and, Clause.holds, Clause.holds,
      show HasColumns.column r .billingAccountId = some (.number account.id) by
        simp [HasColumns.column, hr], h.billingAccountVisible, Bool.true_and]
    exact teamVisible_eq_showsTeam hs db r.teamId
  rw [installed_eq .accountTeamLinks (by decide), guardOf]
  simp only [Guard.admits, crud, Policy.appliesTo, List.any_cons, List.any_nil, Option.any_some,
    holdsIn, Clause.holds_and, Clause.holds_or, hvisible]
  rw [Clause.holds_or] at haccess
  rw [haccess]
  cases db.showsTeam r.teamId <;> simp

/-- The entries of the account that can be seen are those of no deleted team. -/
theorem Requester.admits_usageEvent (h : Requester db account subscription user team)
    (hs : s.showsDeleted = false) (hbound : s.currentBillingAccountId = some account.id)
    {r : UsageEvent} (hr : r.billingAccountId = account.id) :
    (installed .usageEvents).admits (holdsIn s db) .select r = !db.hidesEvent r := by
  have haccount : HasColumns.column r .billingAccountId = some (.number account.id) := by
    simp [HasColumns.column, hr]
  have heq : (Clause.eq .billingAccountId .billingAccountId).holds s db (HasColumns.column r) =
      true := by
    simp [Clause.holds, haccount, Setting.value, hbound]
  have haccess : holdsIn s db usageEventsAccess r = !db.hidesEvent r := by
    simp only [holdsIn, usageEventsAccess, Clause.holds_and, Clause.holds_or, heq, Bool.or_true,
      Bool.and_true, Database.hidesEvent, Bool.not_not]
    rw [Clause.holds, Clause.holds, Clause.holds, haccount, h.billingAccountVisible, Bool.true_and]
    cases hteam : r.teamId with
    | none => simp [HasColumns.column, hteam]
    | some other =>
      rw [show HasColumns.column r .teamId = some (.number other) by
        simp [HasColumns.column, hteam], teamVisible_eq_showsTeam hs]
      rfl
  rw [installed_eq .usageEvents (by decide), guardOf]
  simp [Guard.admits, Policy.appliesTo, haccess]

/-- All subscriptions of the account can be seen. -/
theorem Requester.admits_subscription (h : Requester db account subscription user team)
    (hbound : s.currentBillingAccountId = some account.id) {r : Subscription}
    (hr : r.billingAccountId = account.id) :
    (installed .subscriptions).admits (holdsIn s db) .select r = true := by
  have haccount : HasColumns.column r .billingAccountId = some (.number account.id) := by
    simp [HasColumns.column, hr]
  have heq : (Clause.eq .billingAccountId .billingAccountId).holds s db (HasColumns.column r) =
      true := by
    simp [Clause.holds, haccount, Setting.value, hbound]
  have haccess : holdsIn s db subscriptionsAccess r = true := by
    simp only [holdsIn, subscriptionsAccess, Clause.holds_and, Clause.holds_or, heq, Bool.or_true,
      Bool.and_true]
    rw [Clause.holds, haccount, h.billingAccountVisible]
  rw [installed_eq .subscriptions (by decide), guardOf]
  simp [Guard.admits, crud, Policy.appliesTo, haccess]

/-- The account can be read and locked. -/
theorem Requester.admits_account (h : Requester db account subscription user team)
    (hbound : s.currentBillingAccountId = some account.id) :
    (installed .billingAccounts).admits (holdsIn s db) .select account = true ∧
      (installed .billingAccounts).admits (holdsIn s db) .update account = true := by
  have hlive : Clause.holds s db (HasColumns.column account) notDeleted = true := by
    simp [notDeleted, Clause.holds, HasColumns.column, h.account_deletedAt]
  have heq : (Clause.eq .id .billingAccountId).holds s db (HasColumns.column account) = true := by
    simp [Clause.holds, HasColumns.column, Setting.value, hbound]
  rw [installed_eq .billingAccounts (by decide), guardOf]
  constructor <;>
    simp [Guard.admits, crud, Policy.appliesTo, holdsIn, billingAccountWrite, Clause.holds_and,
      Clause.holds_or, hlive, heq]

/-- The team can be read and locked. -/
theorem Requester.reaches_team (h : Requester db account subscription user team)
    (hs : s.showsDeleted = false) (hbound : s.currentTeamId = some team.id) :
    (installed .teams).reaches (holdsIn s db) .update (fun r => r.id = team.id) team = true := by
  have hlive : Clause.holds s db (HasColumns.column team) notDeleted = true := by
    simp [notDeleted, Clause.holds, HasColumns.column, h.team_deletedAt]
  have heq : (Clause.eq .id .teamId).holds s db (HasColumns.column team) = true := by
    simp [Clause.holds, HasColumns.column, Setting.value, hbound]
  have hvisible : (Clause.teamVisible .id).holds s db (HasColumns.column team) = true := by
    rw [Clause.holds, show HasColumns.column team .id = some (.number team.id) from rfl,
      teamVisible_eq_showsTeam hs, h.team_shown]
  rw [installed_eq .teams (by decide), guardOf]
  simp [Guard.reaches, Guard.admits, crud, Policy.appliesTo, holdsIn, visibilityClause,
    Clause.holds_and, Clause.holds_or, hlive, heq, hvisible]

/-- The videos that can be seen once the team is bound. -/
theorem admits_video (db : Database) (user : User) (team : Team) (accountId : AccountId)
    (v : VideoRow) :
    (installed .videos).admits (holdsIn (quotaSettings user team.id accountId) db) .select v =
      db.seesVideosOf user team v.row.teamId := by
  have hs : (quotaSettings user team.id accountId).showsDeleted = false := by
    simp [quotaSettings, Settings.showsDeleted, Settings.unset]
  have hcolumn : HasColumns.column v .teamId = some (.number v.row.teamId) := rfl
  have hmember : (db.showsTeam v.row.teamId && (Clause.activeMember .teamId).holds
      (quotaSettings user team.id accountId) db (HasColumns.column v)) =
        db.opensTeam user v.row.teamId :=
    holds_activeMember hs rfl hcolumn
  have hvisible : (Clause.teamVisible .teamId).holds (quotaSettings user team.id accountId) db
      (HasColumns.column v) = db.showsTeam v.row.teamId := teamVisible_eq_showsTeam hs db _
  have hadmin : Clause.adminRole.holds (quotaSettings user team.id accountId) db
      (HasColumns.column v) = decide (user.role = .admin) := by
    simp [Clause.holds, quotaSettings]
  have hteam : (Clause.eq .teamId .teamId).holds (quotaSettings user team.id accountId) db
      (HasColumns.column v) = decide (v.row.teamId = team.id) := by
    simp [Clause.holds, HasColumns.column, Setting.value, quotaSettings]
  rw [admits_select_teamTable (by decide), holdsIn, Clause.holds_and, teamAccess, Clause.holds_or,
    Clause.holds_or, hvisible, hadmin, hteam, Database.seesVideosOf]
  rw [Database.opensTeam] at hmember
  cases hshown : db.showsTeam v.row.teamId with
  | false => simp
  | true =>
    rw [hshown, Bool.true_and, Bool.true_and] at hmember
    rw [hmember, Bool.or_assoc]

/-! ### What the checks come to -/

variable {d : Provision} {additionalBytes : ℕ}

/-- The one link of the team. -/
theorem Requester.filter_link (h : Requester db account subscription user team) :
    db.accountTeamLinks.filter (fun r => r.teamId = team.id) = [⟨account.id, team.id⟩] :=
  @filter_key_eq _ _ _ AccountTeamLink.teamId _
    (h.links.imp fun {_ _} hab => of_decide_eq_false hab) _ h.link_mem

theorem Requester.filter_account (h : Requester db account subscription user team) :
    db.billingAccounts.filter (fun r => r.id = account.id) = [account] :=
  filter_key_eq (h.accounts.imp fun {_ _} hab => of_decide_eq_false hab) h.account_mem

/-- The connection on which the figures are added up. -/
def quotaSession (db : Database) (user : User) (team : TeamId) (account : AccountId) :
    Transaction.Session Database Settings :=
  { authenticated db user with settings := quotaSettings user team account }

theorem quotaSettings_showsDeleted (user : User) (team : TeamId) (account : AccountId) :
    (quotaSettings user team account).showsDeleted = false := by
  simp [quotaSettings, Settings.showsDeleted, Settings.unset]

/-- The account is there, under its id. -/
theorem Requester.eq_account (h : Requester db account subscription user team)
    {r : BillingAccount} (hr : r ∈ db.billingAccounts) (hid : r.id = account.id) : r = account := by
  have hmem : r ∈ db.billingAccounts.filter fun r => r.id = account.id :=
    List.mem_filter.mpr ⟨hr, decide_eq_true hid⟩
  rwa [h.filter_account, List.mem_singleton] at hmem

theorem Requester.select_account (h : Requester db account subscription user team) :
    select installed .billingAccounts (fun r => r.id = account.id)
      (quotaSession db user team.id account.id) =
        (.ok [account], quotaSession db user team.id account.id) := by
  rw [select_ok (Guard.select_eq_filter (select_mem_privileges _) fun r hr hp => ?_)]
  · exact congrArg (fun l => (Except.ok l, _)) h.filter_account
  · rw [h.eq_account hr (of_decide_eq_true hp)]
    exact (h.admits_account rfl).1

/-- It is locked. -/
theorem Requester.lock_account (h : Requester db account subscription user team) :
    lockActiveBillingAccount installed account.id (quotaSession db user team.id account.id) =
      (.ok (some account), quotaSession db user team.id account.id) := by
  have hprivileges : [.select, .update] ⊆ (installed .billingAccounts).privileges := by
    rw [installed_eq .billingAccounts (by decide), guardOf]
    simp [crud, Command.all]
  have hone : db.billingAccounts.filter (fun r =>
      r.id = account.id && r.status = .active && r.deletedAt = none) = [account] := by
    rw [show (fun r : BillingAccount => r.id = account.id && r.status = .active &&
      r.deletedAt = none) = fun r => (decide (r.status = .active) && decide (r.deletedAt = none)) &&
        decide (r.id = account.id) from funext fun r => by rw [Bool.and_assoc, Bool.and_comm],
      ← List.filter_filter, h.filter_account]
    simp [h.account_status, h.account_deletedAt]
  rw [lockActiveBillingAccount, Transaction.bind_ok (selectForUpdate_ok
    (Guard.selectForUpdate_eq_filter hprivileges fun r hr hp => ?_))]
  · rw [show (TableOf.billingAccounts.rows (quotaSession db user team.id account.id).working).filter
      _ = [account] from hone]
    rfl
  · simp only [Bool.and_eq_true] at hp
    rw [h.eq_account hr (of_decide_eq_true hp.1.1)]
    exact h.admits_account rfl

/-- Its subscription is found. -/
theorem Requester.getActiveSubscription_eq (h : Requester db account subscription user team) :
    getActiveSubscription installed account.id (quotaSession db user team.id account.id) =
      (.ok (some subscription), quotaSession db user team.id account.id) := by
  have hsubs : select installed .subscriptions (Subscription.isCurrent account.id)
      (quotaSession db user team.id account.id) =
        (.ok (db.subscriptions.filter (Subscription.isCurrent account.id)),
          quotaSession db user team.id account.id) := by
    refine select_ok (Guard.select_eq_filter (select_mem_privileges _) fun r hr hp => ?_)
    rw [Subscription.isCurrent, Bool.and_eq_true] at hp
    exact h.admits_subscription rfl (of_decide_eq_true hp.1)
  rw [getActiveSubscription, Transaction.bind_ok h.select_account]
  simp only [List.head?_cons, Option.filter_some, h.account_deletedAt, h.account_status,
    decide_true, Bool.and_self, if_true]
  rw [Transaction.bind_ok hsubs, h.subscription]
  rfl

/-- The account is found through the link of the team. -/
theorem Requester.getOrCreateAccountForTeam_eq
    (h : Requester db account subscription user team) :
    getOrCreateAccountForTeam installed team.id (some user.id) d (authenticated db user) =
      (.ok account, quotaSession db user team.id account.id) := by
  have hs : (teamSettings user team.id).showsDeleted = false := by
    simp [teamSettings, quotaSettings, Settings.showsDeleted, Settings.unset]
  have hreach := h.reaches_team (s := teamSettings user team.id) hs rfl
  have hprivileges : [.select, .update] ⊆ (installed .teams).privileges := by
    rw [installed_eq .teams (by decide), guardOf]
    simp [crud, Command.all]
  have hlock : ∃ first rest, selectForUpdate installed .teams (fun r => r.id = team.id)
      { authenticated db user with settings := teamSettings user team.id } =
        (.ok (first :: rest),
          { authenticated db user with settings := teamSettings user team.id }) := by
    have hne : db.teams.filter ((installed .teams).reaches
        (holdsIn (teamSettings user team.id) db) .update fun r => r.id = team.id) ≠ [] :=
      List.ne_nil_of_mem (List.mem_filter.mpr ⟨h.team_mem, hreach⟩)
    obtain ⟨first, rest, hrows⟩ := List.exists_cons_of_ne_nil hne
    refine ⟨first, rest, selectForUpdate_ok ?_⟩
    rw [← hrows]
    exact Guard.privileged_of_subset hprivileges
  obtain ⟨first, rest, hlock⟩ := hlock
  have hlinks : select installed .accountTeamLinks (fun r => r.teamId = team.id)
      { authenticated db user with settings := teamSettings user team.id } =
        (.ok [⟨account.id, team.id⟩],
          { authenticated db user with settings := teamSettings user team.id }) := by
    rw [select_ok (Guard.select_eq_filter (select_mem_privileges _) fun r hr hp => ?_)]
    · exact congrArg (fun l => (Except.ok l, _)) h.filter_link
    · have hmem : r ∈ db.accountTeamLinks.filter fun r => r.teamId = team.id :=
        List.mem_filter.mpr ⟨hr, hp⟩
      rw [h.filter_link, List.mem_singleton] at hmem
      subst hmem
      exact (h.admits_link hs rfl (.inr rfl)).trans h.team_shown
  rw [getOrCreateAccountForTeam, setTenantContext, Transaction.set_bind,
    show ({ authenticated db user with settings := { (authenticated db user).settings with
      currentTeamId := some team.id } } : Transaction.Session Database Settings) =
        { authenticated db user with settings := teamSettings user team.id } from rfl,
    Transaction.bind_ok hlock]
  dsimp only [List.head?_cons]
  rw [Transaction.bind_ok hlinks]
  dsimp only [List.head?_cons]
  rw [setBillingAccountContext, Transaction.set_bind]
  exact Transaction.bind_ok h.select_account

/-- Both checks find the account and its subscription. -/
theorem Requester.quotaContext_eq (h : Requester db account subscription user team) :
    quotaContext installed team.id user.id d (authenticated db user) =
      (.ok (account, some subscription), quotaSession db user team.id account.id) := by
  rw [quotaContext, Transaction.bind_ok h.getOrCreateAccountForTeam_eq,
    Transaction.bind_ok h.lock_account]
  dsimp only
  rw [Transaction.bind_ok h.getActiveSubscription_eq]
  rfl

/-- What a requester is told of the uploads. -/
def seenUploads (db : Database) (account : AccountId) (periodStart : Time) : ℤ :=
  max 0 (sumOfQuantities (db.usageEvents.filter fun r =>
    r.isUpload account periodStart && !db.hidesEvent r))

/-- What a requester is told of the storage. -/
def seenStorage (db : Database) (account : AccountId) (user : User) (team : Team) : ℕ :=
  ((db.videos.filter fun r =>
    r.row.status ≠ .failed && db.seesVideosOf user team r.row.teamId).map
      (VideoRow.bytes (db.accountTeamLinks.filter fun r => r.billingAccountId = account))).sum

theorem Requester.videosUsedThisPeriod_eq (h : Requester db account subscription user team)
    (periodStart : Time) :
    videosUsedThisPeriod installed account.id periodStart
      (quotaSession db user team.id account.id) =
        (.ok (seenUploads db account.id periodStart), quotaSession db user team.id account.id) := by
  have hrows : db.usageEvents.filter (fun r => r.isUpload account.id periodStart &&
      (installed .usageEvents).admits (holdsIn (quotaSettings user team.id account.id) db) .select
        r) = db.usageEvents.filter fun r =>
      r.isUpload account.id periodStart && !db.hidesEvent r := by
    refine List.filter_congr fun r _ => ?_
    cases hp : r.isUpload account.id periodStart with
    | false => rfl
    | true =>
      simp only [UsageEvent.isUpload, Bool.and_eq_true] at hp
      rw [h.admits_usageEvent (quotaSettings_showsDeleted ..) rfl (of_decide_eq_true hp.1.1)]
  rw [videosUsedThisPeriod, Transaction.bind_ok (select_visible (select_mem_privileges _))]
  exact congrArg (fun l => (Except.ok (max 0 (sumOfQuantities l)), _)) hrows

theorem Requester.storageBytesReserved_eq (h : Requester db account subscription user team) :
    storageBytesReserved installed account.id (quotaSession db user team.id account.id) =
      (.ok (seenStorage db account.id user team), quotaSession db user team.id account.id) := by
  have hlinks : db.accountTeamLinks.filter (fun r => r.billingAccountId = account.id &&
      (installed .accountTeamLinks).admits (holdsIn (quotaSettings user team.id account.id) db)
        .select r) = db.accountTeamLinks.filter fun r =>
      r.billingAccountId = account.id && db.showsTeam r.teamId := by
    refine List.filter_congr fun r _ => ?_
    cases hp : decide (r.billingAccountId = account.id) with
    | false => rfl
    | true =>
      rw [h.admits_link (quotaSettings_showsDeleted ..) (of_decide_eq_true hp) (.inl rfl)]
  have hvideos : db.videos.filter (fun r => r.row.status ≠ .failed &&
      (installed .videos).admits (holdsIn (quotaSettings user team.id account.id) db) .select r) =
      db.videos.filter fun r =>
        r.row.status ≠ .failed && db.seesVideosOf user team r.row.teamId :=
    List.filter_congr fun r _ => by rw [admits_video]
  -- A video that is seen is of a team that is shown, and so are its links.
  have hbytes : ∀ v ∈ db.videos.filter (fun r =>
        r.row.status ≠ .failed && db.seesVideosOf user team r.row.teamId),
      VideoRow.bytes (db.accountTeamLinks.filter fun r =>
        r.billingAccountId = account.id && db.showsTeam r.teamId) v =
      VideoRow.bytes (db.accountTeamLinks.filter fun r => r.billingAccountId = account.id) v := by
    intro v hv
    have hshown : db.showsTeam v.row.teamId = true := by
      have hsees := (Bool.and_eq_true_iff.mp (List.mem_filter.mp hv).2).2
      rw [Database.seesVideosOf] at hsees
      exact (Bool.and_eq_true_iff.mp hsees).1
    rw [VideoRow.bytes, VideoRow.bytes, List.filter_filter, List.filter_filter]
    congr 2
    refine List.filter_congr fun l _ => ?_
    cases hteam : decide (l.teamId = v.row.teamId) with
    | false => rfl
    | true => rw [of_decide_eq_true hteam, hshown, Bool.and_true]
  rw [storageBytesReserved, Transaction.bind_ok (select_visible (select_mem_privileges _)),
    Transaction.bind_ok (select_visible (select_mem_privileges _))]
  refine congrArg (fun n => (Except.ok n, _)) ?_
  calc _ = ((db.videos.filter fun r =>
          r.row.status ≠ .failed && db.seesVideosOf user team r.row.teamId).map
        (VideoRow.bytes (db.accountTeamLinks.filter fun r =>
          r.billingAccountId = account.id && db.showsTeam r.teamId))).sum :=
      congrArg₂ (fun links videos => ((videos.map (VideoRow.bytes links)).sum)) hlinks hvideos
    _ = seenStorage db account.id user team :=
      congrArg List.sum (List.map_congr_left hbytes)

/-- **What a requester is told.** -/
theorem Requester.toldUsage_eq (h : Requester db account subscription user team) :
    toldUsage installed db user team d additionalBytes =
      some (seenUploads db account.id subscription.currentPeriodStart,
        (seenStorage db account.id user team : ℤ)) := by
  have hupload : ∃ q, (checkVideoUploadQuota installed team.id user.id d
      (authenticated db user)).1 = .ok q ∧
        q.used = seenUploads db account.id subscription.currentPeriodStart := by
    rw [checkVideoUploadQuota, Transaction.bind_ok h.quotaContext_eq]
    dsimp only
    rw [Transaction.bind_ok (h.videosUsedThisPeriod_eq _)]
    exact ⟨_, rfl, rfl⟩
  have hstorage : ∃ q, (checkVideoStorageQuota installed team.id user.id d additionalBytes
      (authenticated db user)).1 = .ok q ∧ q.used = seenStorage db account.id user team := by
    rw [checkVideoStorageQuota, Transaction.bind_ok h.quotaContext_eq]
    dsimp only
    rw [Transaction.bind_ok h.storageBytesReserved_eq]
    exact ⟨_, rfl, rfl⟩
  obtain ⟨q, hq, hused⟩ := hupload
  obtain ⟨q', hq', hused'⟩ := hstorage
  rw [toldUsage, hq, hq', ← hused, ← hused']
  rfl

end Seen

/-! ### Totals and what is seen of them -/

section Totals

variable {db : Database} {account : BillingAccount} {subscription : Subscription} {user : User}
  {team : Team}

/-- A sum splits into what is seen and what is hidden. -/
theorem sumOfQuantities_split (p q : UsageEvent → Bool) (rows : List UsageEvent) :
    sumOfQuantities (rows.filter p) = sumOfQuantities (rows.filter fun r => p r && !q r) +
      sumOfQuantities (rows.filter fun r => p r && q r) := by
  induction rows with
  | nil => rfl
  | cons r rows ih =>
    unfold sumOfQuantities at ih ⊢
    cases hp : p r <;> cases hq : q r <;> simp [hp, hq, ih] <;> omega

/-- Sizes add up to the same exactly when nothing of any size is left out. -/
theorem sum_filter_eq_sum_iff (f : VideoRow → ℕ) (p q : VideoRow → Bool) (rows : List VideoRow) :
    ((rows.filter fun r => p r && q r).map f).sum = ((rows.filter p).map f).sum ↔
      ∀ r ∈ rows, p r = true → f r ≠ 0 → q r = true := by
  have hle : ∀ rows : List VideoRow, ((rows.filter fun r => p r && q r).map f).sum ≤
      ((rows.filter p).map f).sum := by
    intro rows
    induction rows with
    | nil => exact Nat.le_refl _
    | cons r rows ih => cases hp : p r <;> cases hq : q r <;> simp [hp, hq] <;> omega
  induction rows with
  | nil => simp
  | cons r rows ih =>
    have hrest := hle rows
    simp only [List.forall_mem_cons, ← ih]
    cases hp : p r <;> cases hq : q r <;> simp [hp, hq]
    omega

/-- All uploads are seen, or what is hidden of them makes no difference. -/
theorem seenUploads_eq_iff (accountId : AccountId) (periodStart : Time) :
    seenUploads db accountId periodStart = uploadTotal db accountId periodStart ↔
      hiddenUploads db accountId periodStart = 0 ∨
        sumOfQuantities (db.usageEvents.filter (UsageEvent.isUpload accountId periodStart)) ≤
          min 0 (hiddenUploads db accountId periodStart) := by
  have hsplit := sumOfQuantities_split (UsageEvent.isUpload accountId periodStart) db.hidesEvent
    db.usageEvents
  unfold seenUploads uploadTotal hiddenUploads
  omega

/-- A video counts if it has a size and its team is linked to the account. -/
theorem bytes_ne_zero_iff (accountId : AccountId) (v : VideoRow) :
    VideoRow.bytes (db.accountTeamLinks.filter fun r => r.billingAccountId = accountId) v ≠ 0 ↔
      v.row.fileSizeBytes ≠ 0 ∧ ⟨accountId, v.row.teamId⟩ ∈ db.accountTeamLinks := by
  rw [VideoRow.bytes, List.filter_filter, Nat.mul_ne_zero_iff, and_comm, Ne, Ne,
    List.length_eq_zero_iff, List.filter_eq_nil_iff]
  refine and_congr_right fun _ => ⟨fun h => ?_, fun h hnone => hnone _ h (by simp)⟩
  by_contra hmem
  refine h fun r hr hp => hmem ?_
  simp only [Bool.and_eq_true, decide_eq_true_eq] at hp
  rwa [← hp.1, ← hp.2]

/-- A requester is told the totals exactly when the requester sees all usage. -/
theorem seesUsage_iff : SeesUsage db account subscription user team ↔
    seenUploads db account.id subscription.currentPeriodStart =
        uploadTotal db account.id subscription.currentPeriodStart ∧
      seenStorage db account.id user team = storageTotal db account.id := by
  rw [seenUploads_eq_iff, seenStorage, storageTotal, sum_filter_eq_sum_iff]
  simp only [bytes_ne_zero_iff, decide_eq_true_eq, and_imp]
  exact ⟨fun h => ⟨h.uploads, h.videos⟩, fun h => ⟨h.1, h.2⟩⟩

/-- **Usage does not depend on who asks exactly when both requesters see all usage** of the
account. -/
theorem usageIsIndependent_iff {d : Provision} {additionalBytes : ℕ} {user₁ user₂ : User}
    {team₁ team₂ : Team} (h₁ : Requester db account subscription user₁ team₁)
    (h₂ : Requester db account subscription user₂ team₂) :
    UsageIsIndependent installed db account subscription d additionalBytes user₁ team₁ user₂ team₂ ↔
      SeesUsage db account subscription user₁ team₁ ∧
        SeesUsage db account subscription user₂ team₂ := by
  rw [UsageIsIndependent, h₁.toldUsage_eq, h₂.toldUsage_eq, seesUsage_iff, seesUsage_iff]
  simp only [Option.some.injEq, Prod.mk.injEq, Int.natCast_inj, true_and]
  constructor
  · rintro ⟨hsame, huploads, hstorage⟩
    exact ⟨⟨huploads, hstorage⟩, huploads, hsame ▸ hstorage⟩
  · rintro ⟨⟨huploads, hstorage⟩, -, hstorage'⟩
    exact ⟨hstorage.trans hstorage'.symm, huploads, hstorage⟩

/-- An account with two teams, each with a video and a coach. -/
def twoTeams (memberships : List TeamMembership) : Database :=
  { Database.empty with
    users := [.plain 1 "coach@example.com" .coach, .plain 2 "other@example.com" .coach]
    teams := [⟨0, "code", true, none⟩, ⟨1, "other code", true, none⟩]
    teamVisibility := [(0, none), (1, none)]
    teamMemberships := memberships
    billingAccounts := [⟨7, some 1, none, .active, none⟩]
    billingAccountVisibility := [(7, none)]
    accountTeamLinks := [⟨7, 0⟩, ⟨7, 1⟩]
    subscriptions := [⟨0, 7, 0, .active, 0, "free", some 5, some 5⟩]
    usageEvents := [⟨0, 7, some 0, .videoUploadInitiated, 1, 3⟩,
      ⟨1, 7, some 1, .videoUploadInitiated, 1, 4⟩]
    videos := [⟨0, ⟨0, .processed, 10, none, none, none, none, none, none, none, none, none, none,
        none, none, none, none⟩, some 1⟩,
      ⟨1, ⟨1, .processed, 20, none, none, none, none, none, none, none, none, none, none, none,
        none, none, none⟩, some 2⟩] }

/-- **Two coaches of two teams.** The one is told that the account uses 10 bytes, the other that it
uses 20. It uses 30. -/
theorem exists_not_usageIsIndependent : ∃ db account subscription user₁ team₁ user₂ team₂,
    Requester db account subscription user₁ team₁ ∧ Requester db account subscription user₂ team₂ ∧
    (∃ m ∈ db.teamMemberships, m.userId = user₁.id ∧ m.teamId = team₁.id ∧
      m.teamRole = .headCoach ∧ m.isActive = true) ∧
    (∃ m ∈ db.teamMemberships, m.userId = user₂.id ∧ m.teamId = team₂.id ∧
      m.teamRole = .headCoach ∧ m.isActive = true) ∧
    ¬ UsageIsIndependent installed db account subscription ⟨9, 9, "free", 5⟩ 0 user₁ team₁ user₂
      team₂ := by
  refine ⟨twoTeams [⟨0, 0, 1, .headCoach, none, true⟩, ⟨1, 1, 2, .headCoach, none, true⟩],
    ⟨7, some 1, none, .active, none⟩, ⟨0, 7, 0, .active, 0, "free", some 5, some 5⟩,
    .plain 1 "coach@example.com" .coach, ⟨0, "code", true, none⟩,
    .plain 2 "other@example.com" .coach, ⟨1, "other code", true, none⟩,
    ⟨by decide, rfl, rfl, by decide, by decide, by decide, by decide, rfl, rfl, by decide, rfl⟩,
    ⟨by decide, rfl, rfl, by decide, by decide, by decide, by decide, rfl, rfl, by decide, rfl⟩,
    by decide, by decide, ?_⟩
  rintro ⟨hsame, -⟩
  revert hsame
  decide +kernel

/-- Two coaches of both teams. -/
theorem exists_usageIsIndependent : ∃ db account subscription user₁ team₁ user₂ team₂,
    storageTotal db account.id = 30 ∧
    UsageIsIndependent installed db account subscription ⟨9, 9, "free", 5⟩ 0 user₁ team₁ user₂
      team₂ := by
  refine ⟨twoTeams [⟨0, 0, 1, .headCoach, none, true⟩, ⟨1, 1, 1, .headCoach, none, true⟩,
      ⟨2, 0, 2, .headCoach, none, true⟩, ⟨3, 1, 2, .headCoach, none, true⟩],
    ⟨7, some 1, none, .active, none⟩, ⟨0, 7, 0, .active, 0, "free", some 5, some 5⟩,
    .plain 1 "coach@example.com" .coach, ⟨0, "code", true, none⟩,
    .plain 2 "other@example.com" .coach, ⟨1, "other code", true, none⟩, rfl, ?_⟩
  refine (usageIsIndependent_iff
    ⟨by decide, rfl, rfl, by decide, by decide, by decide, by decide, rfl, rfl, by decide, rfl⟩
    ⟨by decide, rfl, rfl, by decide, by decide, by decide, by decide, rfl, rfl, by decide,
      rfl⟩).mpr ⟨⟨.inl rfl, by decide⟩, .inl rfl, by decide⟩

end Totals

end NextBallUp.Rls
