import NextBallUp.Lib.Keyset
import NextBallUp.Period
import Mathlib.Data.Finset.Lattice.Fold
import Mathlib.Order.Lattice.Nat
import Mathlib.Order.OrderDual

/-!
# The months of a subscription

The quota of uploads is one of a month. The check takes the subscription of the account whose
recorded period starts last, and counts from that start on. It does not look at the end of the
period, nobody records the next one, and a period that is recorded ahead of its time is taken at
once.

## Main definitions

* `Subscription`, `getActiveSubscription`: the rows, and the one that the check takes
* `checkVideoUploads`: the check
* `StartsLast`: the subscription that the check takes
* `InForce`, `Subscription.periodAt`: the subscription and the period that contain a time
* `unreleasedIn`: the uploads of a period

## Main results

* `getActiveSubscription_eq_some_iff`: which subscription is taken
* `allowed_checkVideoUploads`: the check is the one of the sessions, for the plan of the
  subscription
* `countsMonth_iff`: **when the uploads of the month are counted**
* `exists_not_countsMonth`: an upload in each of two months is one too many for a plan of one a
  month
-/

namespace NextBallUp.Subscriptions

/-- A row of `subscriptions`. -/
structure Subscription where
  billingAccountId : AccountId
  status : SubscriptionStatus
  currentPeriodStart : Time
  currentPeriodEnd : Time
  planCodeAtActivation : String
  /-- The quotas in `plan_quotas_at_activation`. -/
  maxVideosPerMonth : Option ℕ
  maxStorageGb : Option ℕ
  rawVideoRetentionDays : Option ℕ
  deriving DecidableEq, Repr

variable {rows : List Subscription} {sub : Subscription} {events : List UsageEvent}
  {account : AccountId} {now start stop : Time}

/-! ### The check -/

/-- The condition of `get_active_subscription`. -/
def Subscription.isActive (sub : Subscription) (account : AccountId) : Bool :=
  sub.billingAccountId = account && (sub.status = .trialing || sub.status = .active)

/-- `get_active_subscription` for an active account, which takes the first row in the order of
`current_period_start DESC`. -/
def getActiveSubscription (rows : List Subscription) (account : AccountId) : Option Subscription :=
  (Keyset.orderBy (fun sub : Subscription => OrderDual.toDual sub.currentPeriodStart)
    (rows.filter fun sub => sub.isActive account)).head?

/-- The plan that the other functions of the module resolve. -/
def Subscription.plan (sub : Subscription) : Plan where
  maxVideosPerMonth := sub.maxVideosPerMonth
  maxStorageGb := sub.maxStorageGb
  rawVideoRetentionDays := sub.rawVideoRetentionDays
  currentPeriodStart := sub.currentPeriodStart

structure QuotaCheck where
  planCode : Option String
  quotaKey : String
  used : ℤ
  limit : Option ℕ
  allowed : Bool
  deriving DecidableEq, Repr

/-- `check_video_upload_quota` for an account that is active and locked. -/
def checkVideoUploads (rows : List Subscription) (events : List UsageEvent) (account : AccountId) :
    QuotaCheck :=
  match getActiveSubscription rows account with
  | none =>
    { planCode := none
      quotaKey := "max_videos_per_month"
      used := 0
      limit := some 0
      allowed := false }
  | some sub =>
    let used := videosUsedThisPeriod events account sub.currentPeriodStart
    { planCode := some sub.planCodeAtActivation
      quotaKey := "max_videos_per_month"
      used := used
      limit := sub.maxVideosPerMonth
      allowed := sub.maxVideosPerMonth.all fun limit : ℕ => used < limit }

/-- The last start that is recorded for the account. -/
def lastStart (rows : List Subscription) (account : AccountId) : Time :=
  (rows.filter fun sub => sub.isActive account).toFinset.sup Subscription.currentPeriodStart

/-- The check takes an active subscription that starts last. -/
theorem getActiveSubscription_spec (h : getActiveSubscription rows account = some sub) :
    sub ∈ rows ∧ sub.isActive account = true ∧ ∀ sub' ∈ rows, sub'.isActive account = true →
      sub'.currentPeriodStart ≤ sub.currentPeriodStart := by
  rw [getActiveSubscription] at h
  obtain ⟨hmem, hle⟩ := Keyset.head?_orderBy h
  obtain ⟨hrow, hactive⟩ := List.mem_filter.mp hmem
  exact ⟨hrow, hactive, fun sub' hrow' hactive' =>
    OrderDual.toDual_le_toDual.mp (hle sub' (List.mem_filter.mpr ⟨hrow', hactive'⟩))⟩

theorem lastStart_eq (h : getActiveSubscription rows account = some sub) :
    lastStart rows account = sub.currentPeriodStart := by
  obtain ⟨hrow, hactive, hle⟩ := getActiveSubscription_spec h
  refine le_antisymm (Finset.sup_le fun sub' hsub' => ?_) (Finset.le_sup ?_)
  · rw [List.mem_toFinset, List.mem_filter] at hsub'
    exact hle sub' hsub'.1 hsub'.2
  · rw [List.mem_toFinset, List.mem_filter]
    exact ⟨hrow, hactive⟩

/-- There is one if there is an active one. -/
theorem exists_getActiveSubscription (hmem : sub ∈ rows) (h : sub.isActive account = true) :
    ∃ taken, getActiveSubscription rows account = some taken := by
  cases htaken : getActiveSubscription rows account with
  | some taken => exact ⟨taken, rfl⟩
  | none =>
    rw [getActiveSubscription, List.head?_eq_none_iff] at htaken
    have hsub : sub ∈ rows.filter fun sub => sub.isActive account := List.mem_filter.mpr ⟨hmem, h⟩
    exact (List.not_mem_nil (htaken ▸ Keyset.mem_orderBy.mpr hsub)).elim

/-- The first of the active rows that start last. -/
def StartsLast (rows : List Subscription) (account : AccountId) (sub : Subscription) : Prop :=
  ∃ before after, rows = before ++ sub :: after ∧ sub.isActive account = true ∧
    (∀ sub' ∈ before, sub'.isActive account = true →
      sub'.currentPeriodStart < sub.currentPeriodStart) ∧
    ∀ sub' ∈ after, sub'.isActive account = true →
      sub'.currentPeriodStart ≤ sub.currentPeriodStart

theorem StartsLast.cons {row : Subscription} (h : StartsLast rows account sub)
    (hrow : row.isActive account = true → row.currentPeriodStart < sub.currentPeriodStart) :
    StartsLast (row :: rows) account sub := by
  obtain ⟨before, after, rfl, hactive, hbefore, hafter⟩ := h
  exact ⟨row :: before, after, rfl, hactive, List.forall_mem_cons.mpr ⟨hrow, hbefore⟩, hafter⟩

/-- Of two rows that start last the first one is taken. -/
theorem getActiveSubscription_cons {row : Subscription} (h : row.isActive account = true) :
    getActiveSubscription (row :: rows) account =
      some (match getActiveSubscription rows account with
        | some taken => if taken.currentPeriodStart ≤ row.currentPeriodStart then row else taken
        | none => row) := by
  have hfilter : (row :: rows).filter (fun sub => sub.isActive account) =
      row :: rows.filter fun sub => sub.isActive account := List.filter_cons_of_pos h
  rw [getActiveSubscription, hfilter, Keyset.head?_orderBy_cons, ← getActiveSubscription]
  cases getActiveSubscription rows account with
  | none => rfl
  | some taken => exact congrArg some (if_congr OrderDual.toDual_le_toDual rfl rfl)

theorem startsLast_of_getActiveSubscription (h : getActiveSubscription rows account = some sub) :
    StartsLast rows account sub := by
  induction rows generalizing sub with
  | nil => cases h
  | cons row rows ih =>
    cases hrow : row.isActive account with
    | false =>
      rw [getActiveSubscription, List.filter_cons_of_neg (by rw [hrow]; decide)] at h
      exact (ih h).cons fun hactive => by rw [hrow] at hactive; cases hactive
    | true =>
      rw [getActiveSubscription_cons hrow] at h
      cases htaken : getActiveSubscription rows account with
      | none =>
        rw [htaken] at h
        obtain rfl := Option.some.inj h
        refine ⟨[], rows, rfl, hrow, fun _ hmem => (List.not_mem_nil hmem).elim, ?_⟩
        intro sub' hmem hactive
        obtain ⟨taken, ht⟩ := exists_getActiveSubscription hmem hactive
        rw [htaken] at ht
        cases ht
      | some taken =>
        rw [htaken] at h
        dsimp only at h
        split_ifs at h with hle
        · obtain rfl := Option.some.inj h
          refine ⟨[], rows, rfl, hrow, fun _ hmem => (List.not_mem_nil hmem).elim, ?_⟩
          intro sub' hmem hactive
          exact ((getActiveSubscription_spec htaken).2.2 sub' hmem hactive).trans hle
        · obtain rfl := Option.some.inj h
          exact (ih htaken).cons fun _ => not_le.mp hle

theorem StartsLast.unique {sub' : Subscription} (h : StartsLast rows account sub)
    (h' : StartsLast rows account sub') : sub = sub' := by
  obtain ⟨before, after, rfl, hactive, hbefore, hafter⟩ := h
  obtain ⟨before', after', hrows, hactive', hbefore', hafter'⟩ := h'
  rcases List.append_eq_append_iff.mp hrows with ⟨between, rfl, hcons⟩ | ⟨between, rfl, hcons⟩
  · cases between with
    | nil => exact (List.cons.inj hcons).1
    | cons row between =>
      obtain ⟨rfl, rfl⟩ := List.cons.inj hcons
      have hlt := hbefore' sub (List.mem_append_right _ List.mem_cons_self) hactive
      have hle := hafter sub' (List.mem_append_right _ List.mem_cons_self) hactive'
      exact absurd hlt (not_lt.mpr hle)
  · cases between with
    | nil => exact (List.cons.inj hcons).1.symm
    | cons row between =>
      obtain ⟨rfl, rfl⟩ := List.cons.inj hcons
      have hlt := hbefore sub' (List.mem_append_right _ List.mem_cons_self) hactive'
      have hle := hafter' sub (List.mem_append_right _ List.mem_cons_self) hactive
      exact absurd hlt (not_lt.mpr hle)

/-- **The subscription that the check takes.** -/
theorem getActiveSubscription_eq_some_iff :
    getActiveSubscription rows account = some sub ↔ StartsLast rows account sub := by
  refine ⟨startsLast_of_getActiveSubscription, fun h => ?_⟩
  obtain ⟨before, after, hrows, hactive, -⟩ := id h
  have hmem : sub ∈ rows := hrows ▸ List.mem_append_right _ List.mem_cons_self
  obtain ⟨taken, htaken⟩ := exists_getActiveSubscription hmem hactive
  rw [htaken, h.unique (startsLast_of_getActiveSubscription htaken)]

/-- It is the check of the sessions, for the plan of the subscription. -/
theorem allowed_checkVideoUploads (h : getActiveSubscription rows account = some sub) :
    (checkVideoUploads rows events account).allowed =
      checkVideoUploadQuota events account sub.plan := by
  rw [checkVideoUploads, h]
  rfl

/-! ### Months -/

/-- The subscription that is in force at a time: one whose recorded period contains the time, or
else one whose period has passed, and of these the one that has started last. -/
structure InForce (rows : List Subscription) (account : AccountId) (now : Time)
    (sub : Subscription) : Prop where
  mem : sub ∈ rows
  isActive : sub.isActive account = true
  started : sub.currentPeriodStart ≤ now
  isPeriod : sub.currentPeriodStart < sub.currentPeriodEnd
  contains : ∀ sub' ∈ rows, sub'.isActive account = true → sub'.currentPeriodStart ≤ now →
    now < sub'.currentPeriodEnd → now < sub.currentPeriodEnd
  latest : ∀ sub' ∈ rows, sub'.isActive account = true → sub'.currentPeriodStart ≤ now →
    (now < sub'.currentPeriodEnd ↔ now < sub.currentPeriodEnd) →
    sub'.currentPeriodStart ≤ sub.currentPeriodStart

/-- The period of a subscription that contains a time: the recorded one, or one of those that follow
it, which are as long. -/
def Subscription.periodAt (sub : Subscription) (now : Time) : Time × Time :=
  let length := sub.currentPeriodEnd - sub.currentPeriodStart
  let start := sub.currentPeriodStart + (now - sub.currentPeriodStart) / length * length
  (start, start + length)

/-- The uploads initiated in a period. -/
def initiatedIn (events : List UsageEvent) (account : AccountId) (period : Time × Time) :
    Finset VideoId :=
  videosOf events fun e => e.reserves && e.inPeriod account period.1 && e.occurredAt < period.2

/-- The uploads initiated in a period and not released. -/
def unreleasedIn (events : List UsageEvent) (account : AccountId) (period : Time × Time) :
    Finset VideoId :=
  initiatedIn events account period \ released events account

/-- So many uploads are fewer than the quota of the subscription, if it has one. -/
def Subscription.Admits (sub : Subscription) (used : ℕ) : Prop :=
  ∀ limit, sub.maxVideosPerMonth = some limit → used < limit

/-- The check counts the unreleased uploads of the month of a subscription, and allows another one
as long as they are fewer than its quota. -/
structure CountsMonth (rows : List Subscription) (events : List UsageEvent) (account : AccountId)
    (sub : Subscription) (now : Time) : Prop where
  used : (checkVideoUploads rows events account).used =
    (unreleasedIn events account (sub.periodAt now)).card
  allowed : (checkVideoUploads rows events account).allowed = true ↔
    sub.Admits (unreleasedIn events account (sub.periodAt now)).card

/-- The uploads that are counted, though they are not of the period. -/
def foreign (rows : List Subscription) (events : List UsageEvent) (account : AccountId)
    (period : Time × Time) : Finset VideoId :=
  unreleasedSince events account (lastStart rows account) \ unreleasedIn events account period

/-- The uploads of the period that are not counted. -/
def missed (rows : List Subscription) (events : List UsageEvent) (account : AccountId)
    (period : Time × Time) : Finset VideoId :=
  unreleasedIn events account period \ unreleasedSince events account (lastStart rows account)

/-- The multiples of a length, counted from a start, enclose any time from the start on. -/
theorem start_add_div_mul {start now length : ℕ} (hlength : 0 < length) (h : start ≤ now) :
    start + (now - start) / length * length ≤ now ∧
      now < start + (now - start) / length * length + length := by
  have hdiv := Nat.div_add_mod' (now - start) length
  have hlt := Nat.mod_lt (now - start) hlength
  generalize (now - start) / length * length = passed at hdiv ⊢
  generalize (now - start) % length = left at hdiv hlt
  constructor
  · omega
  · omega

/-- The period contains the time. -/
theorem periodAt_contains (hstarted : sub.currentPeriodStart ≤ now)
    (h : sub.currentPeriodStart < sub.currentPeriodEnd) :
    (sub.periodAt now).1 ≤ now ∧ now < (sub.periodAt now).2 :=
  start_add_div_mul (Nat.sub_pos_of_lt h) hstarted

/-- It is the recorded period if that contains the time. -/
theorem periodAt_eq (hstarted : sub.currentPeriodStart ≤ now) (h : now < sub.currentPeriodEnd) :
    sub.periodAt now = (sub.currentPeriodStart, sub.currentPeriodEnd) := by
  have hzero : (now - sub.currentPeriodStart) /
      (sub.currentPeriodEnd - sub.currentPeriodStart) = 0 :=
    Nat.div_eq_of_lt (Nat.sub_lt_sub_right hstarted h)
  have hstop : sub.currentPeriodStart + (sub.currentPeriodEnd - sub.currentPeriodStart) =
      sub.currentPeriodEnd := Nat.add_sub_cancel' (hstarted.trans h.le)
  rw [Subscription.periodAt, hzero, Nat.zero_mul, Nat.add_zero, hstop]

/-- **The uploads of the month are counted if and only if** as many uploads are counted too much,
for they are of another period or backdated out of the counted time, as are left out, for they
precede the start from which is counted or are made up for by releases that were carried over into
that time, or the period has none, and no fewer are left out; and the quota of the subscription that
starts last admits another upload if and only if that of the one in force does. -/
theorem countsMonth_iff (h : IsLedger events) (hforce : InForce rows account now sub) :
    CountsMonth rows events account sub now ↔
      ((foreign rows events account (sub.periodAt now)).card +
          (backdated events account (lastStart rows account)).card =
        (missed rows events account (sub.periodAt now)).card +
          (carriedOver events account (lastStart rows account)).card ∨
      unreleasedIn events account (sub.periodAt now) = ∅ ∧
        (foreign rows events account (sub.periodAt now)).card +
            (backdated events account (lastStart rows account)).card ≤
          (carriedOver events account (lastStart rows account)).card) ∧
      ∀ last, StartsLast rows account last →
        (last.Admits (unreleasedIn events account (sub.periodAt now)).card ↔
          sub.Admits (unreleasedIn events account (sub.periodAt now)).card) := by
  obtain ⟨taken, htaken⟩ := exists_getActiveSubscription hforce.mem hforce.isActive
  have hlast : StartsLast rows account taken := getActiveSubscription_eq_some_iff.mp htaken
  have hsince : lastStart rows account = taken.currentPeriodStart := lastStart_eq htaken
  have hused := h.balanced.videosUsedThisPeriod_eq account taken.currentPeriodStart
  rw [foreign, missed, hsince, ← Finset.card_eq_zero]
  have hcheck : (checkVideoUploads rows events account).used =
      videosUsedThisPeriod events account taken.currentPeriodStart := by
    rw [checkVideoUploads, htaken]
  have hallowed {n : ℕ} (hn : (checkVideoUploads rows events account).used = n) :
      (checkVideoUploads rows events account).allowed = true ↔ taken.Admits n := by
    rw [checkVideoUploads, htaken] at hn ⊢
    dsimp only at hn ⊢
    rw [hn, Option.all_eq_true]
    exact forall₂_congr fun limit _ => decide_eq_true_iff.trans Nat.cast_lt
  have hcounted := Finset.card_sdiff_add_card_inter
    (unreleasedSince events account taken.currentPeriodStart)
    (unreleasedIn events account (sub.periodAt now))
  have hperiod := Finset.card_sdiff_add_card_inter (unreleasedIn events account (sub.periodAt now))
    (unreleasedSince events account taken.currentPeriodStart)
  rw [Finset.inter_comm] at hperiod
  constructor
  · rintro ⟨heq, hquota⟩
    refine ⟨by omega, fun last hlast' => ?_⟩
    rw [← hlast.unique hlast', ← hquota, hallowed heq]
  · rintro ⟨hcount, hquota⟩
    have heq : (checkVideoUploads rows events account).used =
        (unreleasedIn events account (sub.periodAt now)).card := by omega
    exact ⟨heq, (hallowed heq).trans (hquota taken hlast)⟩

/-! ### Given accounts -/

/-- The subscription with which `get_or_create_account_for_team` provisions an account, for a plan
of so many uploads a month. -/
def provisioned (account : AccountId) (now : Time) (maxVideosPerMonth : Option ℕ) :
    Subscription where
  billingAccountId := account
  status := .active
  currentPeriodStart := now
  currentPeriodEnd := now + 30 * 86400
  planCodeAtActivation := "free"
  maxVideosPerMonth := maxVideosPerMonth
  maxStorageGb := none
  rawVideoRetentionDays := none

theorem inForce_provisioned {limit : Option ℕ} (h : start ≤ now) :
    InForce [provisioned account start limit] account now (provisioned account start limit) where
  mem := List.mem_singleton_self _
  isActive := by simp [Subscription.isActive, provisioned]
  started := h
  isPeriod := Nat.lt_add_of_pos_right (by decide)
  contains sub' hsub' _ _ hlt := by rwa [← List.mem_singleton.mp hsub']
  latest sub' hsub' _ _ _ := by rw [List.mem_singleton.mp hsub']

/-- An upload in the first month. -/
theorem exists_countsMonth : ∃ events, IsLedger events ∧
    unreleasedIn events 0 ((provisioned 0 0 (some 1)).periodAt 100) = {7} ∧
    CountsMonth [provisioned 0 0 (some 1)] events 0 (provisioned 0 0 (some 1)) 100 := by
  have h := IsLedger.nil
    |>.call (.initiateUpload ⟨0, 10, none, []⟩ 7) (some (0, ⟨some 1, none, none, 0⟩)) 50 (by decide)
  refine ⟨_, h, by decide, (countsMonth_iff h (inForce_provisioned (Nat.zero_le _))).mpr
    ⟨.inl (by decide +kernel), fun last hlast => ?_⟩⟩
  obtain ⟨before, after, hrows, -⟩ := hlast
  have hmem : last ∈ [provisioned 0 0 (some 1)] :=
    hrows ▸ List.mem_append_right _ List.mem_cons_self
  rw [List.mem_singleton.mp hmem]

/-- **A plan of one upload a month.** There was an upload in the first month and none in the second,
and no other one is allowed. -/
theorem exists_not_countsMonth : ∃ rows events account now sub, IsLedger events ∧
    InForce rows account now sub ∧ unreleasedIn events account (sub.periodAt now) = ∅ ∧
    (checkVideoUploads rows events account).limit = some 1 ∧
    (checkVideoUploads rows events account).allowed = false ∧
    ¬ CountsMonth rows events account sub now := by
  have h := IsLedger.nil
    |>.call (.initiateUpload ⟨0, 10, none, []⟩ 7) (some (0, ⟨some 1, none, none, 0⟩)) 50 (by decide)
  refine ⟨[provisioned 0 0 (some 1)], _, 0, 31 * 86400, provisioned 0 0 (some 1), h,
    inForce_provisioned (Nat.zero_le _), by decide, by decide, by decide, fun hc => ?_⟩
  exact absurd hc.used (by decide)

end NextBallUp.Subscriptions
