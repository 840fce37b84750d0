import NextBallUp.UploadSlots
import Mathlib.Data.Finset.Card

/-!
# What an account has used in a period

`videos_used_this_period` sums the entries since the start of the period. A release is stamped with
its own time and not with that of the reservation it gives back, so the release of an upload of an
earlier period is deducted from the uploads of this one, and the clamp at 0 hides part of that.

## Main definitions

* `LedgerCall`, `IsLedger`: the ledgers that sequences of calls produce
* `unreleasedSince`: the uploads initiated in a period and not released
* `carriedOver`, `backdated`: the uploads whose reservation and release the start of the period
  separates

## Main results

* `videosUsedThisPeriod_eq`: the sum, clamped at 0, for every balanced ledger
* `countsPeriod_iff`: **when it is the number of unreleased uploads**
* `exists_not_countsPeriod`: an account uploads more than its plan allows
-/

namespace NextBallUp

variable {events : List UsageEvent} {account : AccountId} {start : Time}

/-! ### Calls -/

/-- The calls that write the ledger: an upload, under the identifier that is drawn for it, and a
release. -/
inductive LedgerCall
  | initiateUpload (req : InitiateUpload) (video : VideoId)
  | releaseReservation (team : TeamId) (video : VideoId)

/-- What a call that meets no other records in the ledger. `resolved` is what `resolve_team_plan`
returns at that time. -/
def LedgerCall.entries (events : List UsageEvent) (resolved : Option (AccountId × Plan))
    (now : Time) : LedgerCall → List UsageEvent
  | .initiateUpload req video =>
    match resolved with
    | none => []
    | some (account, plan) =>
      if checkVideoUploadQuota events account plan then
        initiateEvents account req.teamId video req.fileSizeBytes now
      else []
  | .releaseReservation team video =>
    match resolved with
    | none => []
    | some (account, _) =>
      releaseEvents (some account) (netReserved events account team video) team video now

/-- The identifier of an uploaded video has just been drawn. -/
def LedgerCall.IsFresh (events : List UsageEvent) : LedgerCall → Prop
  | .initiateUpload _ video => ∀ e ∈ events, e.videoId ≠ video
  | .releaseReservation .. => True

instance (events : List UsageEvent) : (call : LedgerCall) → Decidable (call.IsFresh events)
  | .initiateUpload _ video => inferInstanceAs (Decidable (∀ e ∈ events, e.videoId ≠ video))
  | .releaseReservation .. => .isTrue trivial

/-- The ledgers that sequences of calls at any times produce. -/
inductive IsLedger : List UsageEvent → Prop
  | nil : IsLedger []
  | call {events : List UsageEvent} (call : LedgerCall) (resolved : Option (AccountId × Plan))
    (now : Time) : IsLedger events → call.IsFresh events →
    IsLedger (events ++ call.entries events resolved now)

theorem IsLedger.balanced (h : IsLedger events) : Balanced events := by
  induction h with
  | nil => exact balanced_nil
  | @call events call resolved now _ hf ih =>
    cases call with
    | initiateUpload req video =>
      simp only [LedgerCall.entries]
      split
      · simpa using ih
      · split
        · exact ih.initiate hf _
        · simpa using ih
    | releaseReservation team video =>
      simp only [LedgerCall.entries]
      split
      · simpa using ih
      · simp only [releaseEvents]
        split
        · simpa using ih
        · next hn => exact ih.release (ih.isReserved (Int.not_le.mp hn))

/-! ### Uploads of a period -/

/-- The videos that the entries satisfying a condition are about. -/
def videosOf (events : List UsageEvent) (q : UsageEvent → Bool) : Finset VideoId :=
  ((events.filter q).map UsageEvent.videoId).toFinset

/-- The entries that `videos_used_this_period` sums. -/
def UsageEvent.inPeriod (account : AccountId) (start : Time) (e : UsageEvent) : Bool :=
  e.billingAccountId = account ∧ e.eventKey = .videoUploadInitiated ∧ start ≤ e.occurredAt

/-- The uploads initiated in the period. -/
def initiatedSince (events : List UsageEvent) (account : AccountId) (start : Time) :
    Finset VideoId :=
  videosOf events fun e => e.reserves && e.inPeriod account start

/-- The uploads released in the period. -/
def releasedSince (events : List UsageEvent) (account : AccountId) (start : Time) :
    Finset VideoId :=
  videosOf events fun e => e.releases && e.inPeriod account start

/-- The uploads released at any time. -/
def released (events : List UsageEvent) (account : AccountId) : Finset VideoId :=
  releasedSince events account 0

/-- The uploads initiated in the period and not released. -/
def unreleasedSince (events : List UsageEvent) (account : AccountId) (start : Time) :
    Finset VideoId :=
  initiatedSince events account start \ released events account

/-- The uploads released in the period and not initiated in it. -/
def carriedOver (events : List UsageEvent) (account : AccountId) (start : Time) : Finset VideoId :=
  releasedSince events account start \ initiatedSince events account start

/-- The uploads initiated in the period and released before it, as a clock that is set back may
date them. -/
def backdated (events : List UsageEvent) (account : AccountId) (start : Time) : Finset VideoId :=
  initiatedSince events account start ∩
    (released events account \ releasedSince events account start)

theorem mem_videosOf {q : UsageEvent → Bool} {v : VideoId} :
    v ∈ videosOf events q ↔ ∃ e ∈ events, q e ∧ e.videoId = v := by
  simp [videosOf, and_assoc]

/-- Entries of different videos are as many as their videos. -/
theorem card_videosOf {q p : UsageEvent → Bool}
    (h : ((events.filter q).map UsageEvent.videoId).Nodup) :
    (videosOf events fun e => q e && p e).card = events.countP fun e => q e && p e := by
  rw [videosOf, List.toFinset_card_of_nodup, List.length_map, List.countP_eq_length_filter]
  have hsub : (events.filter fun e => q e && p e).Sublist (events.filter q) := by
    simpa only [List.filter_filter, Bool.and_comm] using
      List.filter_sublist (p := p) (l := events.filter q)
  exact h.sublist (hsub.map _)

theorem releasedSince_subset : releasedSince events account start ⊆ released events account := by
  intro v hv
  obtain ⟨e, he, hq, rfl⟩ := mem_videosOf.mp hv
  refine mem_videosOf.mpr ⟨e, he, ?_, rfl⟩
  simp only [UsageEvent.inPeriod, Bool.and_eq_true, decide_eq_true_eq] at hq ⊢
  exact ⟨hq.1, hq.2.1, hq.2.2.1, Nat.zero_le _⟩

/-! ### The sum -/

theorem card_sub_card {α : Type*} [DecidableEq α] {A B C : Finset α} (h : C ⊆ B) :
    (A.card : ℤ) - C.card = (A \ B).card + (A ∩ (B \ C)).card - (C \ A).card := by
  have hA := Finset.card_sdiff_add_card_inter A B
  have hC := Finset.card_sdiff_add_card_inter C A
  have hAB := Finset.card_sdiff_add_card_inter (A ∩ B) C
  have h₁ : (A ∩ B) \ C = A ∩ (B \ C) := Finset.inter_sdiff_assoc ..
  have h₂ : (A ∩ B) ∩ C = C ∩ A := by
    rw [Finset.inter_assoc, Finset.inter_eq_right.mpr h, Finset.inter_comm]
  rw [h₁, h₂] at hAB
  omega

/-- **What the sum is.** -/
theorem Balanced.videosUsedThisPeriod_eq (h : Balanced events) (account : AccountId)
    (start : Time) :
    videosUsedThisPeriod events account start = max 0
      ((unreleasedSince events account start).card + (backdated events account start).card -
        (carriedOver events account start).card : ℤ) := by
  have hsum : sumQuantities events (UsageEvent.inPeriod account start) =
      (initiatedSince events account start).card - (releasedSince events account start).card := by
    rw [initiatedSince, releasedSince, card_videosOf h.reserved, card_videosOf h.released]
    refine NextBallUp.sumQuantities_eq fun e he hp => h.units e he ?_
    simp only [UsageEvent.inPeriod, decide_eq_true_eq] at hp
    exact hp.2.1
  rw [videosUsedThisPeriod]
  exact congrArg (max 0) (hsum.trans (card_sub_card releasedSince_subset))

/-- The usage of the period is the number of its unreleased uploads, and the quota check allows
another one only as long as they are fewer than the plan allows. -/
def CountsPeriod (events : List UsageEvent) (account : AccountId) (start : Time) : Prop :=
  videosUsedThisPeriod events account start = (unreleasedSince events account start).card ∧
    ∀ plan : Plan, plan.currentPeriodStart = start →
      checkVideoUploadQuota events account plan = true →
      ∀ limit, plan.maxVideosPerMonth = some limit →
        (unreleasedSince events account start).card < limit

theorem Balanced.countsPeriod_iff_card (h : Balanced events) (account : AccountId) (start : Time) :
    CountsPeriod events account start ↔
      (backdated events account start).card = (carriedOver events account start).card ∨
        unreleasedSince events account start = ∅ ∧
          (backdated events account start).card ≤ (carriedOver events account start).card := by
  have hused := h.videosUsedThisPeriod_eq account start
  rw [← Finset.card_eq_zero]
  constructor
  · rintro ⟨heq, -⟩
    omega
  · intro hc
    have heq : videosUsedThisPeriod events account start =
        (unreleasedSince events account start).card := by omega
    refine ⟨heq, fun plan hstart hcheck limit hlimit => ?_⟩
    simp only [checkVideoUploadQuota, hlimit, hstart, heq, Option.all_some,
      decide_eq_true_eq] at hcheck
    omega

/-- **The usage of a period is the number of its unreleased uploads if and only if** as many uploads
have been carried over into it as have been backdated out of it, or none of its own is unreleased
and no fewer have been carried over. -/
theorem countsPeriod_iff (h : IsLedger events) (account : AccountId) (start : Time) :
    CountsPeriod events account start ↔
      (backdated events account start).card = (carriedOver events account start).card ∨
        unreleasedSince events account start = ∅ ∧
          (backdated events account start).card ≤ (carriedOver events account start).card :=
  h.balanced.countsPeriod_iff_card account start

/-- The same holds of the ledger that interleaved sessions write, as long as no slot is released
twice. -/
theorem countsPeriod_iff_of_reach {S : Settings} {c : State}
    (h : (system S).Reach Deployed ReleasesOnce c) (account : AccountId) (start : Time) :
    CountsPeriod c.world.usageEvents account start ↔
      (backdated c.world.usageEvents account start).card =
          (carriedOver c.world.usageEvents account start).card ∨
        unreleasedSince c.world.usageEvents account start = ∅ ∧
          (backdated c.world.usageEvents account start).card ≤
            (carriedOver c.world.usageEvents account start).card :=
  (slots_of_reach h).balanced.countsPeriod_iff_card account start

/-! ### Given calls -/

/-- Two uploads of a period, one of which is released in it. -/
theorem exists_countsPeriod :
    ∃ events, IsLedger events ∧ unreleasedSince events 0 10 = {1} ∧ CountsPeriod events 0 10 := by
  have h := IsLedger.nil
    |>.call (.initiateUpload ⟨0, 10, none, []⟩ 0) (some (0, .unlimited)) 11 (by decide)
    |>.call (.initiateUpload ⟨0, 10, none, []⟩ 1) (some (0, .unlimited)) 12 (by decide)
    |>.call (.releaseReservation 0 0) (some (0, .unlimited)) 13 (by decide)
  exact ⟨_, h, by decide, (countsPeriod_iff h 0 10).mpr (.inl (by decide))⟩

/-- The plan allows one upload in a period. An upload of the period before is released in this one,
and the one upload of this period is not counted: another one is allowed. -/
theorem exists_not_countsPeriod :
    ∃ events, IsLedger events ∧ videosUsedThisPeriod events 0 10 = 0 ∧
      unreleasedSince events 0 10 = {1} ∧
      checkVideoUploadQuota events 0 ⟨some 1, none, none, 10⟩ = true ∧
      ¬ CountsPeriod events 0 10 := by
  have h := IsLedger.nil
    |>.call (.initiateUpload ⟨0, 10, none, []⟩ 0) (some (0, ⟨some 1, none, none, 0⟩)) 1 (by decide)
    |>.call (.initiateUpload ⟨0, 10, none, []⟩ 1) (some (0, ⟨some 1, none, none, 10⟩)) 11
      (by decide)
    |>.call (.releaseReservation 0 0) (some (0, ⟨some 1, none, none, 10⟩)) 12 (by decide)
  refine ⟨_, h, by decide, by decide, by decide, fun hc => ?_⟩
  exact absurd hc.1 (by decide)

end NextBallUp
