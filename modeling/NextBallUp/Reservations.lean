import NextBallUp.Ledger
import Mathlib.Data.List.Nodup

/-!
# Upload slots in the ledger

An upload reserves a slot by an entry of quantity 1, and a release gives it back by an entry of
quantity -1. A ledger is balanced if no slot is reserved twice or released twice, and only reserved
ones are released. What the pipeline reads of such a ledger are differences of two counts.

## Main definitions

* `UsageEvent.reserves`, `UsageEvent.releases`: the two kinds of entries
* `Balanced`: a balanced ledger
* `IsReserved`: a slot that has been reserved and not released

## Main results

* `sumQuantities_eq`: a sum of quantities is a difference of two counts
* `Balanced.initiate`, `Balanced.release`: the entries that keep a ledger balanced
* `Balanced.netSlots`: the net reservation of a video is 0 or 1
-/

namespace NextBallUp

variable {events events' : List UsageEvent} {account : AccountId} {team : TeamId} {v : VideoId}
  {now : Time}

/-- The entry reserves the slot of its video. -/
def UsageEvent.reserves (e : UsageEvent) : Bool :=
  e.eventKey = .videoUploadInitiated ∧ e.quantity = 1

/-- The entry gives the slot of its video back. -/
def UsageEvent.releases (e : UsageEvent) : Bool :=
  e.eventKey = .videoUploadInitiated ∧ e.quantity = -1

/-- Whose slot the entry is about. -/
def UsageEvent.slot (e : UsageEvent) : AccountId × TeamId × VideoId :=
  (e.billingAccountId, e.teamId, e.videoId)

/-- No slot is reserved twice or released twice, and only reserved ones are released. -/
structure Balanced (events : List UsageEvent) : Prop where
  units : ∀ e ∈ events, e.eventKey = .videoUploadInitiated → e.reserves ∨ e.releases
  reserved : ((events.filter (·.reserves)).map UsageEvent.videoId).Nodup
  released : ((events.filter (·.releases)).map UsageEvent.videoId).Nodup
  owned : ∀ e ∈ events, e.releases → ∃ e' ∈ events, e'.reserves ∧ e'.slot = e.slot

/-- The slot of the video has been reserved and not released. -/
structure IsReserved (events : List UsageEvent) (account : AccountId) (team : TeamId)
    (v : VideoId) : Prop where
  reserved : ∃ e ∈ events, e.reserves ∧ e.slot = (account, team, v)
  unreleased : ∀ e ∈ events, e.releases → e.videoId ≠ v

/-! ### Sums -/

theorem UsageEvent.quantity_eq {e : UsageEvent} (h : e.reserves ∨ e.releases) :
    e.quantity = (if e.reserves then 1 else 0) - (if e.releases then 1 else 0) := by
  simp only [reserves, releases, decide_eq_true_eq] at h ⊢
  rcases h with h | h <;> simp [h]

/-- **A sum of quantities is a difference of two counts.** -/
theorem sumQuantities_eq {p : UsageEvent → Bool}
    (h : ∀ e ∈ events, p e → e.reserves ∨ e.releases) :
    sumQuantities events p =
      (events.countP fun e => e.reserves && p e) - (events.countP fun e => e.releases && p e) := by
  induction events with
  | nil => rfl
  | cons e events ih =>
    have ih := ih fun e' he' => h e' (List.mem_cons_of_mem _ he')
    rw [sumQuantities] at ih ⊢
    by_cases hp : p e = true
    · rw [List.filter_cons_of_pos hp, List.map_cons, List.sum_cons, ih,
        UsageEvent.quantity_eq (h e (List.mem_cons_self ..) hp)]
      simp only [List.countP_cons, hp, Bool.and_true]
      split_ifs <;> omega
    · rw [List.filter_cons_of_neg hp, ih]
      simp [hp]

/-- Among entries of different videos at most one is about a given one. -/
theorem countP_le_one {q : UsageEvent → Bool} {p : UsageEvent → Bool}
    (h : ((events.filter q).map UsageEvent.videoId).Nodup) (hp : ∀ e, p e → e.videoId = v) :
    (events.countP fun e => q e && p e) ≤ 1 := by
  calc (events.countP fun e => q e && p e)
      ≤ events.countP fun e => (e.videoId == v) && q e := by
        refine List.countP_mono_left fun e _ he => ?_
        simp only [Bool.and_eq_true, beq_iff_eq] at he ⊢
        exact ⟨hp e he.2, he.1⟩
    _ = ((events.filter q).map UsageEvent.videoId).count v := by
        rw [List.count, List.countP_map, List.countP_filter]
        rfl
    _ ≤ 1 := List.nodup_iff_count_le_one.mp h v

theorem exists_of_countP_pos {q p : UsageEvent → Bool}
    (h : 0 < events.countP fun e => q e && p e) : ∃ e ∈ events, q e ∧ p e := by
  obtain ⟨e, he, hqp⟩ := List.countP_pos_iff.mp h
  exact ⟨e, he, Bool.and_eq_true_iff.mp hqp⟩

theorem countP_pos {q p : UsageEvent → Bool} {e : UsageEvent} (he : e ∈ events) (hq : q e)
    (hp : p e) : 0 < events.countP fun e => q e && p e :=
  List.countP_pos_iff.mpr ⟨e, he, Bool.and_eq_true_iff.mpr ⟨hq, hp⟩⟩

/-- All entries that reserve the slot of one video reserve the same slot. -/
theorem Balanced.slot_eq (h : Balanced events) {e e' : UsageEvent} (he : e ∈ events)
    (he' : e' ∈ events) (hr : e.reserves) (hr' : e'.reserves) (hv : e.videoId = e'.videoId) :
    e.slot = e'.slot := by
  have := List.inj_on_of_nodup_map h.reserved (List.mem_filter.mpr ⟨he, hr⟩)
    (List.mem_filter.mpr ⟨he', hr'⟩) hv
  rw [this]

/-! ### The net reservation of a video -/

section Video

variable {p : UsageEvent → Bool}

/-- The entries that a sum over one video ranges over. -/
def IsAbout (v : VideoId) (p : UsageEvent → Bool) : Prop :=
  ∀ e, p e → e.eventKey = .videoUploadInitiated ∧ e.videoId = v

theorem Balanced.sumQuantities_eq (h : Balanced events) (hp : IsAbout v p) :
    sumQuantities events p =
      (events.countP fun e => e.reserves && p e) - (events.countP fun e => e.releases && p e) :=
  NextBallUp.sumQuantities_eq fun e he hpe => h.units e he (hp e hpe).1

theorem Balanced.countP_reserves (h : Balanced events) (hp : IsAbout v p) :
    (events.countP fun e => e.reserves && p e) ≤ 1 :=
  countP_le_one h.reserved fun e he => (hp e he).2

theorem Balanced.countP_releases (h : Balanced events) (hp : IsAbout v p) :
    (events.countP fun e => e.releases && p e) ≤ 1 :=
  countP_le_one h.released fun e he => (hp e he).2

/-- A positive sum over one video comes from a reservation that is not released. -/
theorem Balanced.of_sumQuantities_pos (h : Balanced events) (hp : IsAbout v p)
    (hn : 0 < sumQuantities events p) :
    (∃ e ∈ events, e.reserves ∧ p e) ∧ ∀ e ∈ events, e.releases → ¬ p e := by
  rw [h.sumQuantities_eq hp] at hn
  have hle := h.countP_reserves hp
  refine ⟨exists_of_countP_pos (by omega), fun e he hr hpe => ?_⟩
  have := countP_pos (q := (·.releases)) he hr hpe
  omega

/-- A video with a positive net reservation is reserved. -/
theorem Balanced.isReserved (h : Balanced events) (hn : 0 < netReserved events account team v) :
    IsReserved events account team v := by
  obtain ⟨⟨e, he, hr, hp⟩, hno⟩ := h.of_sumQuantities_pos (v := v) (by simp [IsAbout]) hn
  have hp := of_decide_eq_true hp
  have hslot : e.slot = (account, team, v) := by
    rw [UsageEvent.slot, hp.1, hp.2.1, hp.2.2.2]
  refine ⟨⟨e, he, hr, hslot⟩, fun e' he' hr' hv => hno e' he' hr' ?_⟩
  -- A release of the video releases the slot that has been reserved for it.
  obtain ⟨e₂, he₂, hr₂, hs₂⟩ := h.owned e' he' hr'
  have hv₂ : e₂.videoId = e.videoId := by
    rw [show e₂.videoId = e'.videoId from congrArg (·.2.2) hs₂, hv, hp.2.2.2]
  have hslot' := hs₂.symm.trans ((h.slot_eq he₂ he hr₂ hr hv₂).trans hslot)
  simp only [UsageEvent.slot, Prod.mk.injEq] at hslot'
  simp only [UsageEvent.releases, decide_eq_true_eq] at hr'
  exact decide_eq_true ⟨hslot'.1, hslot'.2.1, hr'.1, hslot'.2.2⟩

/-- The sum of all quantities that are recorded for the slot of a video. -/
def netSlots (events : List UsageEvent) (v : VideoId) : ℤ :=
  sumQuantities events fun e => e.eventKey = .videoUploadInitiated ∧ e.videoId = v

/-- **The net reservation of a video is 0 or 1.** -/
theorem Balanced.netSlots (h : Balanced events) (v : VideoId) :
    netSlots events v = 0 ∨ netSlots events v = 1 := by
  have hp : IsAbout v fun e => e.eventKey = .videoUploadInitiated ∧ e.videoId = v := by
    simp [IsAbout]
  have hres := h.countP_reserves hp
  have hrel := h.countP_releases hp
  have hle : 0 < (events.countP fun e => e.releases && decide
      (e.eventKey = .videoUploadInitiated ∧ e.videoId = v)) →
      0 < events.countP fun e => e.reserves && decide
        (e.eventKey = .videoUploadInitiated ∧ e.videoId = v) := by
    intro hpos
    obtain ⟨e, he, hr, hpe⟩ := exists_of_countP_pos hpos
    obtain ⟨e', he', hr', hs⟩ := h.owned e he hr
    refine countP_pos (q := (·.reserves)) he' hr' (decide_eq_true ⟨?_, ?_⟩)
    · simp only [UsageEvent.reserves, decide_eq_true_eq] at hr'
      exact hr'.1
    · rw [show e'.videoId = e.videoId from congrArg (·.2.2) hs]
      exact (hp e hpe).2
  rw [NextBallUp.netSlots, h.sumQuantities_eq hp]
  omega

end Video

/-! ### Entries that keep a ledger balanced -/

theorem balanced_nil : Balanced [] := ⟨by simp, by simp, by simp, by simp⟩

/-- A new video reserves its slot. -/
theorem Balanced.initiate (h : Balanced events) (hv : ∀ e ∈ events, e.videoId ≠ v) (n : ℕ) :
    Balanced (events ++ initiateEvents account team v n now) := by
  refine ⟨fun e he hk => ?_, ?_, ?_, fun e he hr => ?_⟩
  · rcases List.mem_append.mp he with he | he
    · exact h.units e he hk
    · simp only [initiateEvents, List.mem_cons, List.not_mem_nil, or_false] at he
      rcases he with rfl | rfl
      · exact .inl rfl
      · cases hk
  · rw [List.filter_append, List.map_append]
    refine h.reserved.append (by simp [initiateEvents, UsageEvent.reserves]) ?_
    intro u hu hv'
    obtain ⟨e, he, rfl⟩ := List.mem_map.mp hu
    obtain ⟨e', he', hu⟩ := List.mem_map.mp hv'
    refine hv e (List.mem_of_mem_filter he) (hu.symm.trans ?_)
    exact (mem_initiateEvents (List.mem_of_mem_filter he')).2.2
  · rw [List.filter_append]
    simpa [initiateEvents, UsageEvent.releases] using h.released
  · rcases List.mem_append.mp he with he | he
    · obtain ⟨e', he', hr', hs⟩ := h.owned e he hr
      exact ⟨e', List.mem_append_left _ he', hr', hs⟩
    · simp only [initiateEvents, List.mem_cons, List.not_mem_nil, or_false] at he
      rcases he with rfl | rfl <;> simp [UsageEvent.releases] at hr

/-- A reserved slot is released. -/
theorem Balanced.release (h : Balanced events) (hr : IsReserved events account team v) :
    Balanced (events ++ [⟨account, team, .videoUploadInitiated, -1, now, v⟩]) := by
  refine ⟨fun e he hk => ?_, ?_, ?_, fun e he hrel => ?_⟩
  · rcases List.mem_append.mp he with he | he
    · exact h.units e he hk
    · rw [List.mem_singleton.mp he]
      exact .inr rfl
  · rw [List.filter_append]
    simpa [UsageEvent.reserves] using h.reserved
  · rw [List.filter_append, List.map_append]
    refine h.released.append (by simp [UsageEvent.releases]) ?_
    intro u hu hv
    obtain ⟨e, he, rfl⟩ := List.mem_map.mp hu
    obtain ⟨e', he', hu⟩ := List.mem_map.mp hv
    obtain ⟨he, hrel⟩ := List.mem_filter.mp he
    rw [List.mem_singleton.mp (List.mem_of_mem_filter he')] at hu
    exact hr.unreleased e he hrel hu.symm
  · rcases List.mem_append.mp he with he | he
    · obtain ⟨e', he', hr', hs⟩ := h.owned e he hrel
      exact ⟨e', List.mem_append_left _ he', hr', hs⟩
    · obtain ⟨e', he', hr', hs⟩ := hr.reserved
      rw [List.mem_singleton.mp he]
      exact ⟨e', List.mem_append_left _ he', hr', hs⟩

/-- A slot stays reserved as long as it is not released. -/
theorem IsReserved.append (h : IsReserved events account team v)
    (hn : ∀ e ∈ events', e.releases → e.videoId ≠ v) :
    IsReserved (events ++ events') account team v := by
  obtain ⟨e, he, hr, hs⟩ := h.reserved
  refine ⟨⟨e, List.mem_append_left _ he, hr, hs⟩, fun e' he' hr' => ?_⟩
  rcases List.mem_append.mp he' with he' | he'
  · exact h.unreleased e' he' hr'
  · exact hn e' he' hr'

end NextBallUp
