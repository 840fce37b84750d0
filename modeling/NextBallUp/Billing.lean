import NextBallUp.Processes
import Mathlib.Algebra.Order.Ring.Int

/-!
# Quotas and the usage ledger

The parts of `billing.py` that the upload flow uses: what an account has used of its quotas, and
the entries that reserve an upload slot and give it back. The ledger `usage_events` is only ever
appended to.

## What is deliberately absent

Accounts, subscriptions and links are provisioned elsewhere. An inactive account, or one without a
subscription, is a missing row of `World.accounts`.
-/

namespace NextBallUp

/-- The sum of the quantities of the entries that satisfy a condition. -/
def sumQuantities (events : List UsageEvent) (p : UsageEvent → Bool) : ℤ :=
  ((events.filter p).map UsageEvent.quantity).sum

/-- `videos_used_this_period` -/
def videosUsedThisPeriod (events : List UsageEvent) (account : AccountId) (periodStart : Time) :
    ℤ :=
  max 0 (sumQuantities events fun e =>
    e.billingAccountId = account ∧ e.eventKey = .videoUploadInitiated ∧
      periodStart ≤ e.occurredAt)

/-- `storage_bytes_reserved`, by a request that sees the videos of some teams only: the table is
under `FORCE ROW LEVEL SECURITY`. -/
def storageBytesReserved (shows : TeamId → Bool) (w : World) (account : AccountId) : ℕ :=
  ((List.range w.uuid).map fun v =>
    match w.videos.row v with
    | none => 0
    | some r =>
      if shows r.teamId ∧ w.accountTeamLinks r.teamId = some account ∧ r.status ≠ .failed then
        r.fileSizeBytes
      else 0).sum

/-- `resolve_team_plan` -/
def resolveTeamPlan (w : World) (team : TeamId) : Option (AccountId × Plan) :=
  (w.accountTeamLinks team).bind fun account => (w.accounts.row account).map (account, ·)

/-- The `SELECT` of `release_video_upload_quota_reservation`. -/
def netReserved (events : List UsageEvent) (account : AccountId) (team : TeamId)
    (video : VideoId) : ℤ :=
  sumQuantities events fun e =>
    e.billingAccountId = account ∧ e.teamId = team ∧ e.eventKey = .videoUploadInitiated ∧
      e.videoId = video

/-- What `release_video_upload_quota_reservation` has read of the ledger: the account, if there is
one, and the net reservation of the video. -/
def sumReserved (w : World) (team : TeamId) (video : VideoId) : Option AccountId × ℤ :=
  match resolveTeamPlan w team with
  | none => (none, 0)
  | some (account, _) => (some account, netReserved w.usageEvents account team video)

/-- The entry that `release_video_upload_quota_reservation` records. -/
def releaseEvents (account : Option AccountId) (net : ℤ) (team : TeamId) (video : VideoId)
    (now : Time) : List UsageEvent :=
  match account with
  | none => []
  | some account => if net ≤ 0 then [] else [⟨account, team, .videoUploadInitiated, -1, now, video⟩]

/-- The entries that `initiate_upload` records. -/
def initiateEvents (account : AccountId) (team : TeamId) (video : VideoId) (fileSizeBytes : ℕ)
    (now : Time) : List UsageEvent :=
  [⟨account, team, .videoUploadInitiated, 1, now, video⟩,
    ⟨account, team, .videoStorageBytesReserved, fileSizeBytes, now, video⟩]

/-- What `initiate_upload` records: it looks for the account again. -/
def uploadEvents (w : World) (team : TeamId) (video : VideoId) (fileSizeBytes : ℕ) :
    List UsageEvent :=
  match resolveTeamPlan w team with
  | none => []
  | some (account, _) => initiateEvents account team video fileSizeBytes w.now

theorem uploadEvents_of_link {w : World} {team : TeamId} {account : AccountId} {plan : Plan}
    (hlink : w.accountTeamLinks team = some account) (hrow : w.accounts.row account = some plan)
    (video : VideoId) (n : ℕ) :
    uploadEvents w team video n = initiateEvents account team video n w.now := by
  have hplan : resolveTeamPlan w team = some (account, plan) := by
    simp [resolveTeamPlan, hlink, hrow]
  rw [uploadEvents, hplan]

/-- When accounts and links may have changed, there may be no account any more, or another one. -/
theorem uploadEvents_cases (w : World) (team : TeamId) (video : VideoId) (n : ℕ) :
    uploadEvents w team video n = [] ∨
      ∃ account, uploadEvents w team video n = initiateEvents account team video n w.now := by
  unfold uploadEvents
  split
  · exact .inl rfl
  · next account _ _ => exact .inr ⟨account, rfl⟩

/-- `check_video_upload_quota` for a locked account: whether another upload is allowed. -/
def checkVideoUploadQuota (events : List UsageEvent) (account : AccountId) (plan : Plan) : Bool :=
  plan.maxVideosPerMonth.all fun limit : ℕ =>
    videosUsedThisPeriod events account plan.currentPeriodStart < limit

/-- `max_storage_gb * 1024 * 1024 * 1024` -/
def Plan.storageLimit (plan : Plan) : Option ℕ :=
  plan.maxStorageGb.map fun gb => gb * 1024 * 1024 * 1024

/-- `check_video_storage_quota` for a locked account: whether so many bytes more are allowed. -/
def checkVideoStorageQuota (shows : TeamId → Bool) (w : World) (account : AccountId) (plan : Plan)
    (additionalBytes : ℕ) : Bool :=
  plan.storageLimit.all fun limit =>
    storageBytesReserved shows w account + additionalBytes ≤ limit

end NextBallUp
