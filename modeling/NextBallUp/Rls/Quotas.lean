import NextBallUp.Rls.Usage
import NextBallUp.Subscriptions

/-!
# The quotas of the sessions and of the policies

The checks of an upload are modelled three times: where sessions interleave, where subscriptions
follow each other, and where policies hide rows. This module says that they are one check. What the
runtime role computes for a requester is what the other two compute of the rows that the requester
sees: the entries of teams that are not deleted, and the videos of the teams of the requester.

## Main definitions

* `Represents`: the rows of the database and those of the other models are the same

## Main results

* `latestSubscription_terms`: the same subscription is taken
* `seenUploads_eq`, `seenStorage_eq`: **the same rows are added up**
* `Requester.check_uploads`, `Requester.check_storage`: **the checks agree**
* `represents_twoTeams`: two teams of one account, in all three models
-/

namespace NextBallUp.Rls

/-! ### The same rows -/

/-- What the checks read of a subscription. -/
def Subscription.terms (r : Subscription) :
    AccountId × SubscriptionStatus × Time × String × Option ℕ × Option ℕ :=
  ⟨r.billingAccountId, r.status, r.currentPeriodStart, r.planCodeAtActivation,
    r.maxVideosPerMonthAtActivation, r.maxStorageGbAtActivation⟩

/-- What they read of a row of the other model. -/
def subscriptionTerms (sub : Subscriptions.Subscription) :
    AccountId × SubscriptionStatus × Time × String × Option ℕ × Option ℕ :=
  ⟨sub.billingAccountId, sub.status, sub.currentPeriodStart, sub.planCodeAtActivation,
    sub.maxVideosPerMonth, sub.maxStorageGb⟩

/-- An entry of the ledger, but for its id. -/
def UsageEvent.entry (r : UsageEvent) : AccountId × Option TeamId × EventKey × ℤ × Time :=
  ⟨r.billingAccountId, r.teamId, r.eventKey, r.quantity, r.occurredAt⟩

/-- An entry of the other model, but for its video. -/
def usageEntry (e : NextBallUp.UsageEvent) : AccountId × Option TeamId × EventKey × ℤ × Time :=
  ⟨e.billingAccountId, e.teamId, e.eventKey, e.quantity, e.occurredAt⟩

/-- The rows of the database that the checks read are those of the other models. -/
structure Represents (db : Database) (subs : List Subscriptions.Subscription) (w : World) :
    Prop where
  subscriptions : db.subscriptions.map Subscription.terms = subs.map subscriptionTerms
  usageEvents : db.usageEvents.map UsageEvent.entry = w.usageEvents.map usageEntry
  links : ∀ account team,
    ⟨account, team⟩ ∈ db.accountTeamLinks ↔ w.accountTeamLinks team = some account
  videos : (db.videos.map VideoRow.row).Perm ((List.range w.uuid).filterMap w.videos.row)

variable {db : Database} {subs : List Subscriptions.Subscription} {w : World}
  {account : BillingAccount} {subscription : Subscription} {user : User} {team : Team}

/-! ### The subscription -/

/-- A fold that keeps the first of the rows that start last, when it starts with a row. -/
theorem foldl_latest {f : Option Subscription → Subscription → Option Subscription}
    (hnone : ∀ r, f none r = some r)
    (hsome : ∀ s r, f (some s) r =
      if s.currentPeriodStart < r.currentPeriodStart then some r else some s)
    (rows : List Subscription) (s : Subscription) :
    rows.foldl f (some s) = some ((rows.foldl f none).elim s fun r =>
      if s.currentPeriodStart < r.currentPeriodStart then r else s) := by
  induction rows generalizing s with
  | nil => rfl
  | cons r rows ih =>
    rw [List.foldl_cons, List.foldl_cons, hnone, hsome, ← apply_ite some, ih, ih r]
    cases rows.foldl f none with
    | none => rfl
    | some t =>
      simp only [Option.elim_some]
      split_ifs <;> first | rfl | grind

/-- It is the first row in the order of `current_period_start DESC`. -/
theorem latestSubscription_eq (rows : List Subscription) :
    latestSubscription rows = (Keyset.orderBy
      (fun r : Subscription => OrderDual.toDual r.currentPeriodStart) rows).head? := by
  induction rows with
  | nil => rfl
  | cons r rows ih =>
    rw [Keyset.head?_orderBy_cons, ← ih]
    refine (foldl_latest (fun _ => rfl) (fun _ _ => rfl) rows r).trans ?_
    change some ((latestSubscription rows).elim r _) = _
    cases latestSubscription rows with
    | none => rfl
    | some t =>
      simp only [Option.elim_some, OrderDual.toDual_le_toDual]
      split_ifs <;> first | rfl | grind

/-- **The same subscription is taken.** -/
theorem latestSubscription_terms (h : db.subscriptions.map Subscription.terms =
    subs.map subscriptionTerms) (account : AccountId) :
    (latestSubscription (db.subscriptions.filter (Subscription.isCurrent account))).map
        Subscription.terms =
      (Subscriptions.getActiveSubscription subs account).map subscriptionTerms := by
  let start (t : AccountId × SubscriptionStatus × Time × String × Option ℕ × Option ℕ) :=
    OrderDual.toDual t.2.2.1
  let current (t : AccountId × SubscriptionStatus × Time × String × Option ℕ × Option ℕ) : Bool :=
    t.1 = account && (t.2.1 = .trialing || t.2.1 = .active)
  calc _ = (Keyset.orderBy start ((db.subscriptions.map Subscription.terms).filter
        current)).head? := by
        rw [latestSubscription_eq, ← List.head?_map, List.filter_map, ← Keyset.map_orderBy]
        rfl
    _ = _ := by
        rw [h, Subscriptions.getActiveSubscription, ← List.head?_map, List.filter_map,
          ← Keyset.map_orderBy]
        rfl

/-! ### The uploads -/

/-- **The same entries are added up**, those of teams that are not deleted. -/
theorem seenUploads_eq (h : Represents db subs w) (account : AccountId) (periodStart : Time) :
    seenUploads db account periodStart = NextBallUp.videosUsedThisPeriod
      (w.usageEvents.filter fun e => db.showsTeam e.teamId) account periodStart := by
  let counts (t : AccountId × Option TeamId × EventKey × ℤ × Time) : Bool :=
    decide (t.1 = account ∧ t.2.2.1 = .videoUploadInitiated ∧ periodStart ≤ t.2.2.2.2)
  let shown (t : AccountId × Option TeamId × EventKey × ℤ × Time) : Bool := t.2.1.all db.showsTeam
  have hseen : db.usageEvents.filter (fun r => r.isUpload account periodStart && !db.hidesEvent r) =
      db.usageEvents.filter fun r => counts r.entry && shown r.entry := by
    refine List.filter_congr fun r _ => ?_
    simp [UsageEvent.isUpload, Database.hidesEvent, UsageEvent.entry, counts, shown,
      Bool.and_assoc]
  have hsum : sumOfQuantities (db.usageEvents.filter fun r => counts r.entry && shown r.entry) =
      (((w.usageEvents.map usageEntry).filter fun t => counts t && shown t).map
        fun t => t.2.2.2.1).sum := by
    rw [← h.usageEvents, List.filter_map, List.map_map]
    rfl
  rw [seenUploads, hseen, hsum, NextBallUp.videosUsedThisPeriod, sumQuantities, List.filter_filter,
    List.filter_map, List.map_map]
  rfl

/-! ### The storage -/

/-- A sum over the rows that satisfy a condition. -/
theorem sum_map_filter {α : Type} (p : α → Bool) (f : α → ℕ) (rows : List α) :
    ((rows.filter p).map f).sum = (rows.map fun r => if p r = true then f r else 0).sum := by
  induction rows with
  | nil => rfl
  | cons r rows ih => cases hp : p r <;> simp [hp, ih]

/-- A sum over the rows that there are. -/
theorem sum_map_filterMap {α β : Type} (g : α → Option β) (f : β → ℕ) (rows : List α) :
    ((rows.filterMap g).map f).sum = (rows.map fun r => (g r).elim 0 f).sum := by
  induction rows with
  | nil => rfl
  | cons r rows ih => cases hg : g r <;> simp [hg, ih]

/-- A team is linked to one account, so that a video is added up once. -/
theorem bytes_eq (h : Represents db subs w)
    (hlinks : db.accountTeamLinks.Pairwise fun a b => a.teamId ≠ b.teamId) (account : AccountId)
    (v : VideoRow) :
    VideoRow.bytes (db.accountTeamLinks.filter fun r => r.billingAccountId = account) v =
      if w.accountTeamLinks v.row.teamId = some account then v.row.fileSizeBytes else 0 := by
  rw [VideoRow.bytes, List.filter_comm]
  split_ifs with hlink
  · have hmem : ⟨account, v.row.teamId⟩ ∈ db.accountTeamLinks := (h.links ..).mpr hlink
    have hone : db.accountTeamLinks.filter (fun l => decide (l.teamId = v.row.teamId)) =
        [⟨account, v.row.teamId⟩] :=
      @RowSecurity.filter_key_eq _ _ _ AccountTeamLink.teamId _ hlinks _ hmem
    rw [hone, List.filter_cons_of_pos (by simp), List.filter_nil, List.length_singleton,
      Nat.one_mul]
  · have hnone : (db.accountTeamLinks.filter fun l => decide (l.teamId = v.row.teamId)).filter
        (fun r => decide (r.billingAccountId = account)) = [] := by
      refine List.filter_eq_nil_iff.mpr fun l hl haccount => hlink ((h.links ..).mp ?_)
      obtain ⟨hl, hteam⟩ := List.mem_filter.mp hl
      rwa [← of_decide_eq_true haccount, ← of_decide_eq_true hteam]
    rw [hnone, List.length_nil, Nat.zero_mul]

/-- **The same videos are added up**, those of the teams of the requester. -/
theorem seenStorage_eq (h : Represents db subs w)
    (hlinks : db.accountTeamLinks.Pairwise fun a b => a.teamId ≠ b.teamId) (account : AccountId)
    (user : User) (team : Team) :
    seenStorage db account user team =
      NextBallUp.storageBytesReserved (db.seesVideosOf user team) w account := by
  let bytes (r : Video) : ℕ :=
    if db.seesVideosOf user team r.teamId ∧ w.accountTeamLinks r.teamId = some account ∧
      r.status ≠ .failed then r.fileSizeBytes else 0
  calc seenStorage db account user team = (db.videos.map fun v => bytes v.row).sum := by
        rw [seenStorage, sum_map_filter]
        refine congrArg List.sum (List.map_congr_left fun v _ => ?_)
        rw [bytes_eq h hlinks]
        simp only [bytes]
        grind
    _ = ((db.videos.map VideoRow.row).map bytes).sum := by rw [List.map_map]; rfl
    _ = (((List.range w.uuid).filterMap w.videos.row).map bytes).sum :=
        (h.videos.map bytes).sum_eq
    _ = NextBallUp.storageBytesReserved (db.seesVideosOf user team) w account := by
        rw [sum_map_filterMap, NextBallUp.storageBytesReserved]
        refine congrArg List.sum (List.map_congr_left fun v _ => ?_)
        cases w.videos.row v <;> rfl

/-! ### The checks -/

variable {d : Provision} {additionalBytes : ℕ}

/-- The subscription that is taken, in both models. -/
theorem Requester.exists_taken (h : Requester db account subscription user team)
    (hrep : Represents db subs w) :
    ∃ sub, Subscriptions.getActiveSubscription subs account.id = some sub ∧
      subscriptionTerms sub = subscription.terms := by
  have hterms := latestSubscription_terms hrep.subscriptions account.id
  rw [h.subscription, Option.map_some] at hterms
  obtain ⟨sub, hsub, heq⟩ := Option.map_eq_some_iff.mp hterms.symm
  exact ⟨sub, hsub, heq⟩

/-- **The check of a requester is the one of the months**, of the entries that can be seen. -/
theorem Requester.check_uploads (h : Requester db account subscription user team)
    (hrep : Represents db subs w) :
    ∃ q, (checkVideoUploadQuota installed team.id user.id d (authenticated db user)).1 = .ok q ∧
      let r := Subscriptions.checkVideoUploads subs
        (w.usageEvents.filter fun e => db.showsTeam e.teamId) account.id
      q.planCode = r.planCode ∧ q.used = r.used ∧ q.limit = r.limit.map Nat.cast ∧
        q.allowed = r.allowed := by
  obtain ⟨sub, hsub, hterms⟩ := h.exists_taken hrep
  simp only [subscriptionTerms, Subscription.terms, Prod.mk.injEq] at hterms
  obtain ⟨-, -, hstart, hcode, hlimit, -⟩ := hterms
  rw [checkVideoUploadQuota, Transaction.bind_ok h.quotaContext_eq]
  dsimp only
  rw [Transaction.bind_ok (h.videosUsedThisPeriod_eq _), seenUploads_eq hrep,
    Subscriptions.checkVideoUploads, hsub]
  refine ⟨_, rfl, ?_⟩
  simp only [hstart, hcode, hlimit, true_and]
  cases subscription.maxVideosPerMonthAtActivation <;> rfl

/-- **The check of a requester is the one of the sessions**, of the videos that the requester
sees. -/
theorem Requester.check_storage (h : Requester db account subscription user team)
    (hrep : Represents db subs w) :
    ∃ q sub, (checkVideoStorageQuota installed team.id user.id d additionalBytes
        (authenticated db user)).1 = .ok q ∧
      Subscriptions.getActiveSubscription subs account.id = some sub ∧
      q.used = NextBallUp.storageBytesReserved (db.seesVideosOf user team) w account.id ∧
      q.limit = sub.plan.storageLimit.map Nat.cast ∧
      q.allowed = NextBallUp.checkVideoStorageQuota (db.seesVideosOf user team) w account.id
        sub.plan additionalBytes := by
  obtain ⟨sub, hsub, hterms⟩ := h.exists_taken hrep
  simp only [subscriptionTerms, Subscription.terms, Prod.mk.injEq] at hterms
  obtain ⟨-, -, -, -, -, hlimit⟩ := hterms
  have hlinks : db.accountTeamLinks.Pairwise fun a b => a.teamId ≠ b.teamId :=
    h.links.imp fun {_ _} hab => of_decide_eq_false hab
  rw [checkVideoStorageQuota, Transaction.bind_ok h.quotaContext_eq]
  dsimp only
  rw [Transaction.bind_ok h.storageBytesReserved_eq, seenStorage_eq hrep hlinks]
  refine ⟨_, sub, rfl, hsub, rfl, ?_⟩
  simp only [NextBallUp.checkVideoStorageQuota, Plan.storageLimit, Subscriptions.Subscription.plan,
    hlimit]
  cases subscription.maxStorageGbAtActivation with
  | none => exact ⟨rfl, rfl⟩
  | some gb =>
    simp only [Option.map_some, Option.all_some]
    have hcast : ((gb * 1024 * 1024 * 1024 : ℕ) : ℤ) = (gb : ℤ) * 1024 * 1024 * 1024 := by
      push_cast
      rfl
    exact ⟨congrArg some hcast.symm, decide_eq_decide.mpr (by dsimp only; omega)⟩

/-- An account with two teams, each with a video, in the other models. -/
def twoTeamsWorld : World :=
  { World.start (fun _ => none) fun team => if team ≤ 1 then some 7 else none with
    videos := .unlocked fun v => ((twoTeams []).videos.find? fun r => r.id = v).map VideoRow.row
    usageEvents := [⟨7, 0, .videoUploadInitiated, 1, 3, 0⟩, ⟨7, 1, .videoUploadInitiated, 1, 4, 1⟩]
    uuid := 2 }

/-- The rows are the same, whoever is a member of the teams. -/
theorem represents_twoTeams (memberships : List TeamMembership) :
    Represents (twoTeams memberships) [⟨7, .active, 0, 30, "free", some 5, some 5, none⟩]
      twoTeamsWorld where
  subscriptions := rfl
  usageEvents := rfl
  links account team := by
    simp only [twoTeams, twoTeamsWorld, World.start, List.mem_cons, AccountTeamLink.mk.injEq,
      List.not_mem_nil, or_false]
    split_ifs with hteam
    · constructor
      · rintro (⟨rfl, -⟩ | ⟨rfl, -⟩) <;> rfl
      · rintro ⟨⟩
        exact (Nat.le_one_iff_eq_zero_or_eq_one.mp hteam).imp (⟨rfl, ·⟩) (⟨rfl, ·⟩)
    · constructor
      · rintro (⟨-, rfl⟩ | ⟨-, rfl⟩) <;> exact absurd hteam (by decide)
      · rintro ⟨⟩
  videos := List.Perm.refl _

end NextBallUp.Rls
