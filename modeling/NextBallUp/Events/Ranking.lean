import NextBallUp.Events.Proposals
import NextBallUp.Lib.Ranking

/-!
# Which clips are proposed

The package ranks the proposals of the events that it is given. The route gives it the events of a
video that wait for a review, but no more than the earliest of them, four for every clip that is
asked for.

## Main definitions

* `selectClipProposals`: the package, with its check of the limit
* `ClipProposal.Precedes`, `IsRankedSelection`: what it has to return
* `HasBestEarly`: the best events are among the earliest

## Main results

* `isRankedSelection`: **the package returns a ranked selection**
* `listVideoClipProposals_iff`: **when the route returns the best proposals of the video**
* `exists_not_best`: a made shot behind four passes
-/

namespace NextBallUp.Events

variable {δ : Type} [Arithmetic δ] {event : ClipEvent} {events events' : List ClipEvent}
  {duration : Option ℤ} {includeRejected : Bool} {p q : ClipProposal} {limit : ℕ}

/-! ### Ranks -/

/-- The key by which proposals are sorted. -/
def ClipProposal.rankKey (p : ClipProposal) : ℚᵒᵈ ×ₗ ℤ ×ₗ EventId :=
  toLex (OrderDual.toDual p.rankScore, toLex (p.startTimeMs, p.sourceEventId))

/-- The order by descending rank, then by start, then by event. -/
def ClipProposal.Precedes (p q : ClipProposal) : Prop :=
  q.rankScore < p.rankScore ∨ p.rankScore = q.rankScore ∧
    (p.startTimeMs < q.startTimeMs ∨ p.startTimeMs = q.startTimeMs ∧
      p.sourceEventId < q.sourceEventId)

theorem ClipProposal.precedes_iff : p.Precedes q ↔ p.rankKey < q.rankKey := by
  rw [rankKey, rankKey, Prod.Lex.toLex_lt_toLex, Prod.Lex.toLex_lt_toLex]
  rfl

theorem ClipProposal.le_eq : ClipProposal.le = fun p q => decide (p.rankKey ≤ q.rankKey) := by
  funext p q
  rw [Bool.eq_iff_iff, decide_eq_true_iff, rankKey, rankKey, Prod.Lex.toLex_le_toLex,
    Prod.Lex.toLex_le_toLex]
  simp [ClipProposal.le]

/-! ### Proposals -/

section Proposals

variable {durationSeconds : Option δ}

/-- The proposals of the events. -/
def proposalsOf (events : List ClipEvent) (durationSeconds : Option δ) (includeRejected : Bool) :
    List ClipProposal :=
  events.filterMap fun event =>
    event.proposal δ (ClipEvent.durationMs durationSeconds) includeRejected

theorem mem_proposalsOf : p ∈ proposalsOf events durationSeconds includeRejected ↔
    ∃ event ∈ events,
      event.proposal δ (ClipEvent.durationMs durationSeconds) includeRejected = some p :=
  List.mem_filterMap

theorem perm_proposalsOf (h : events.Perm events') :
    (proposalsOf events durationSeconds includeRejected).Perm
      (proposalsOf events' durationSeconds includeRejected) := h.filterMap _

theorem sourceEventId_of_proposal (h : event.proposal δ duration includeRejected = some p) :
    p.sourceEventId = event.id := by
  rw [ClipEvent.proposal, Option.ite_none_left_eq_some] at h
  obtain ⟨w, -, rfl⟩ := Option.map_eq_some_iff.mp h.2
  rfl

theorem sublist_sourceEventId (events : List ClipEvent) (durationSeconds : Option δ)
    (includeRejected : Bool) :
    ((proposalsOf events durationSeconds includeRejected).map ClipProposal.sourceEventId).Sublist
      (events.map ClipEvent.id) := by
  induction events with
  | nil => exact List.Sublist.slnil
  | cons event events ih =>
    rw [proposalsOf, List.filterMap_cons]
    cases hp : event.proposal δ (ClipEvent.durationMs durationSeconds) includeRejected with
    | none => exact ih.cons _
    | some p =>
      rw [List.map_cons, List.map_cons, sourceEventId_of_proposal hp]
      exact ih.cons_cons _

/-- No two proposals have the same key. -/
theorem hasKey_proposalsOf (h : (events.map ClipEvent.id).Nodup) :
    Keyset.HasKey ClipProposal.rankKey (proposalsOf events durationSeconds includeRejected) := by
  have hids := h.sublist (sublist_sourceEventId events durationSeconds includeRejected)
  refine (List.nodup_map_iff_inj_on (hids.of_map _)).mpr fun p hp q hq heq => ?_
  exact List.inj_on_of_nodup_map hids hp hq (congrArg (fun k => (ofLex (ofLex k).2).2) heq)

/-- **The package takes the best proposals.** -/
theorem buildClipProposals_eq (h : (events.map ClipEvent.id).Nodup) (limit : ℕ) :
    buildClipProposals events durationSeconds limit includeRejected =
      Keyset.top ClipProposal.rankKey limit
        (proposalsOf events durationSeconds includeRejected) := by
  rw [buildClipProposals, ClipProposal.le_eq, Keyset.top,
    ← Keyset.mergeSort_eq_orderBy (hasKey_proposalsOf h)]
  rfl

end Proposals

/-! ### Windows -/

namespace ClipEvent

/-- The package keeps the event. -/
def isReviewable (event : ClipEvent) (includeRejected : Bool) : Bool :=
  event.reviewStatus ∈ reviewQueueStatuses || (includeRejected && event.reviewStatus = "rejected")

theorem clipCenterMs_nonneg (eventTimeMs : ℤ) (h : ∀ d ∈ duration, 0 ≤ d) :
    0 ≤ clipCenterMs eventTimeMs duration := by
  cases duration with
  | none => exact le_max_left _ _
  | some d => exact le_min (le_max_left _ _) (h d rfl)

theorem clipCenterMs_le (eventTimeMs : ℤ) (d : ℤ) : clipCenterMs eventTimeMs (some d) ≤ d :=
  min_le_right _ _

/-- **The window of an event** is not empty, and within a video that is as long as a millisecond. -/
theorem exists_window (event : ClipEvent) (h : ∀ d ∈ duration, 1 ≤ d) :
    ∃ start stop, event.window duration = some (start, stop) ∧ 0 ≤ start ∧ start < stop ∧
      ∀ d ∈ duration, stop ≤ d := by
  have hpre : minWindowMs ≤ event.windowForEvent.1 :=
    minWindowMs_le_windowOverride _ (minWindowMs_le_windowsMs _).1
  have hpost : minWindowMs ≤ event.windowForEvent.2 :=
    minWindowMs_le_windowOverride _ (minWindowMs_le_windowsMs _).2
  have hcenter := clipCenterMs_nonneg event.eventTimeMs fun d hd => Int.le_of_lt (h d hd)
  rw [minWindowMs] at hpre hpost
  rw [window]
  generalize event.windowForEvent = offsets at hpre hpost ⊢
  obtain ⟨pre, post⟩ := offsets
  dsimp only at hpre hpost ⊢
  cases duration with
  | none =>
    generalize clipCenterMs event.eventTimeMs none = center at hcenter ⊢
    have hne : ¬ center + post ≤ max 0 (center - pre) := by omega
    simp only [hne, if_false]
    exact ⟨_, _, rfl, by omega, by omega, fun d hd => (Option.not_mem_none d hd).elim⟩
  | some d =>
    have hd : 1 ≤ d := h d rfl
    have hle := clipCenterMs_le event.eventTimeMs d
    generalize clipCenterMs event.eventTimeMs (some d) = center at hcenter hle ⊢
    have hne : ¬ min d (center + post) ≤ max 0 (center - pre) := by omega
    simp only [hne, if_false]
    refine ⟨_, _, rfl, by omega, by omega, fun d' hd' => ?_⟩
    rw [← Option.some.inj hd']
    exact min_le_left _ _

/-- The events that the package keeps are proposed. -/
theorem isSome_proposal (h : ∀ d ∈ duration, 1 ≤ d) :
    (event.proposal δ duration includeRejected).isSome = event.isReviewable includeRejected := by
  obtain ⟨start, stop, hw, -⟩ := event.exists_window h
  rw [proposal, hw, isReviewable]
  split_ifs with hskip
  · simp [hskip.1]
    exact fun hinclude hrejected => hskip.2 ⟨hinclude, hrejected⟩
  · by_contra hne
    rw [Option.map_some, Option.isSome_some] at hne
    have hfalse := Bool.eq_false_of_not_eq_true (Ne.symm hne)
    rw [Bool.or_eq_false_iff, Bool.and_eq_false_iff, decide_eq_false_iff_not,
      decide_eq_false_iff_not] at hfalse
    refine hskip ⟨hfalse.1, ?_⟩
    rintro ⟨hinclude, hrejected⟩
    rcases hfalse.2 with h | h
    · exact Bool.false_ne_true (h.symm.trans hinclude)
    · exact h hrejected

/-- In a video of no millisecond there is none. -/
theorem window_zero (event : ClipEvent) : event.window (some 0) = none := by
  have hcenter := clipCenterMs_le event.eventTimeMs 0
  rw [window]
  generalize event.windowForEvent = offsets
  generalize clipCenterMs event.eventTimeMs (some 0) = center at hcenter ⊢
  obtain ⟨pre, post⟩ := offsets
  have hle : min 0 (center + post) ≤ max 0 (center - pre) := by omega
  simp only [hle, if_true, minWindowMs]
  decide

end ClipEvent

section Exact

variable {durationSeconds : Option ℚ}

/-- The duration is one of which the package takes no account, or as long as a millisecond. -/
def AdmitsWindows (durationSeconds : Option ℚ) : Prop := ∀ d ∈ durationSeconds, 0 < d → 1 / 1000 ≤ d

instance (durationSeconds : Option ℚ) : Decidable (AdmitsWindows durationSeconds) :=
  inferInstanceAs (Decidable (∀ d ∈ durationSeconds, 0 < d → 1 / 1000 ≤ d))

theorem durationMs_eq_floor {d : ℚ} (hd : 0 < d) :
    ClipEvent.durationMs (some d) = some ⌊d * 1000⌋ := by
  rw [← int_eq_floor (by positivity)]
  show (if d ≤ 0 then none else some (int (d * 1000))) = _
  exact if_neg (not_le.mpr hd)

theorem one_le_durationMs (h : AdmitsWindows durationSeconds) :
    ∀ d ∈ ClipEvent.durationMs durationSeconds, 1 ≤ d := by
  intro ms hms
  cases durationSeconds with
  | none => cases hms
  | some d =>
    rcases le_or_gt d 0 with hd | hd
    · rw [ClipEvent.durationMs, if_pos (show Arithmetic.seconds d ≤ 0 from hd)] at hms
      cases hms
    · rw [durationMs_eq_floor hd] at hms
      obtain rfl := Option.some.inj hms
      have hle := h d rfl hd
      rw [Int.le_floor]
      push_cast
      linarith

theorem durationMs_eq_zero (h : ¬ AdmitsWindows durationSeconds) :
    ClipEvent.durationMs durationSeconds = some 0 := by
  obtain ⟨d, rfl, hd, hlt⟩ : ∃ d, durationSeconds = some d ∧ 0 < d ∧ d < 1 / 1000 := by
    by_contra hall
    refine h fun d hmem hd => ?_
    by_contra hlt
    exact hall ⟨d, hmem, hd, not_le.mp hlt⟩
  rw [durationMs_eq_floor hd, Option.some.injEq, Int.floor_eq_zero_iff]
  constructor
  · positivity
  · linarith

/-- **How many proposals there are.** -/
theorem length_proposalsOf (events : List ClipEvent) (durationSeconds : Option ℚ)
    (includeRejected : Bool) :
    (proposalsOf events durationSeconds includeRejected).length =
      if AdmitsWindows durationSeconds then (events.filter (·.isReviewable includeRejected)).length
      else 0 := by
  rw [proposalsOf, List.length_filterMap_eq_countP, ← List.countP_eq_length_filter]
  split_ifs with h
  · refine List.countP_congr fun event _ => ?_
    rw [ClipEvent.isSome_proposal (one_le_durationMs h)]
  · rw [List.countP_eq_zero]
    intro event _
    rw [durationMs_eq_zero h, ClipEvent.proposal, ClipEvent.window_zero]
    simp

/-! ### The package -/

/-- `build_clip_proposals`, with its check of the limit. -/
def selectClipProposals (events : List ClipEvent) (durationSeconds : Option ℚ) (limit : ℤ)
    (includeRejected : Bool) : List ClipProposal :=
  if limit ≤ 0 then []
  else buildClipProposals events durationSeconds limit.toNat includeRejected

/-- The proposals of different events, ranked, and as many of the best as are asked for. -/
structure IsRankedSelection (events : List ClipEvent) (durationSeconds : Option ℚ) (limit : ℤ)
    (includeRejected : Bool) (result : List ClipProposal) : Prop where
  length_eq : (result.length : ℤ) = max 0 (min limit
    (if AdmitsWindows durationSeconds then (events.filter (·.isReviewable includeRejected)).length
      else 0))
  ofEvent : ∀ p ∈ result, ∃ event ∈ events, p.sourceEventId = event.id ∧
    event.proposal ℚ (ClipEvent.durationMs durationSeconds) includeRejected = some p
  distinct : (result.map ClipProposal.sourceEventId).Nodup
  window : ∀ p ∈ result, 0 ≤ p.startTimeMs ∧ p.startTimeMs < p.endTimeMs ∧
    ∀ d ∈ durationSeconds, 0 < d → p.endTimeMs ≤ int (d * 1000)
  sorted : result.Pairwise ClipProposal.Precedes
  best : ∀ p ∈ result, ∀ event ∈ events, ∀ q,
    event.proposal ℚ (ClipEvent.durationMs durationSeconds) includeRejected = some q → q ∉ result →
    p.Precedes q

theorem selectClipProposals_eq (h : (events.map ClipEvent.id).Nodup) (limit : ℤ) :
    selectClipProposals events durationSeconds limit includeRejected =
      Keyset.top ClipProposal.rankKey limit.toNat
        (proposalsOf events durationSeconds includeRejected) := by
  rw [selectClipProposals, buildClipProposals_eq h]
  split_ifs with hlimit
  · rw [Int.toNat_of_nonpos hlimit]
    rfl
  · rfl

theorem window_of_proposal
    (h : event.proposal ℚ (ClipEvent.durationMs durationSeconds) includeRejected =
    some p) : 0 ≤ p.startTimeMs ∧ p.startTimeMs < p.endTimeMs ∧
      ∀ d ∈ durationSeconds, 0 < d → p.endTimeMs ≤ int (d * 1000) := by
  by_cases hadmits : AdmitsWindows durationSeconds
  · obtain ⟨start, stop, hw, hnonneg, hlt, hle⟩ := event.exists_window (one_le_durationMs hadmits)
    rw [ClipEvent.proposal, Option.ite_none_left_eq_some, hw] at h
    obtain rfl := Option.some.inj h.2
    refine ⟨hnonneg, hlt, fun d hd hpos => hle _ ?_⟩
    obtain rfl := Option.mem_def.mp hd
    rw [durationMs_eq_floor hpos, int_eq_floor (by positivity)]
    rfl
  · rw [ClipEvent.proposal, durationMs_eq_zero hadmits, ClipEvent.window_zero,
      Option.ite_none_left_eq_some] at h
    cases h.2

theorem isRankedSelection_select (h : (events.map ClipEvent.id).Nodup) (durationSeconds : Option ℚ)
    (limit : ℤ) (includeRejected : Bool) :
    IsRankedSelection events durationSeconds limit includeRejected
      (selectClipProposals events durationSeconds limit includeRejected) := by
  have hkey : Keyset.HasKey ClipProposal.rankKey
      (proposalsOf events durationSeconds includeRejected) := hasKey_proposalsOf h
  rw [selectClipProposals_eq h]
  refine ⟨?_, fun p hp => ?_, ?_, fun p hp => ?_, ?_, fun p hp event hevent q hq hleft => ?_⟩
  · rw [Keyset.length_top, length_proposalsOf]
    push_cast
    omega
  · obtain ⟨event, hevent, hproposal⟩ := mem_proposalsOf.mp (Keyset.mem_of_mem_top hp)
    exact ⟨event, hevent, sourceEventId_of_proposal hproposal, hproposal⟩
  · have hids := h.sublist (sublist_sourceEventId events durationSeconds includeRejected)
    exact (((Keyset.orderBy_perm _ _).map _).nodup_iff.mpr hids).sublist
      ((Keyset.sublist_top _ _ _).map _)
  · obtain ⟨event, -, hproposal⟩ := mem_proposalsOf.mp (Keyset.mem_of_mem_top hp)
    exact window_of_proposal hproposal
  · exact (Keyset.pairwise_top hkey _).imp ClipProposal.precedes_iff.mpr
  · exact ClipProposal.precedes_iff.mpr
      (Keyset.lt_of_not_mem_top hkey hp (mem_proposalsOf.mpr ⟨event, hevent, hq⟩) hleft)

/-- **The package returns a ranked selection**, which depends neither on the order of the events
nor, but for its length, on the limit. -/
theorem isRankedSelection (h : (events.map ClipEvent.id).Nodup) (durationSeconds : Option ℚ)
    (limit : ℤ) (includeRejected : Bool) :
    IsRankedSelection events durationSeconds limit includeRejected
        (selectClipProposals events durationSeconds limit includeRejected) ∧
      (∀ events', events.Perm events' →
        selectClipProposals events' durationSeconds limit includeRejected =
          selectClipProposals events durationSeconds limit includeRejected) ∧
      ∀ limit', limit ≤ limit' →
        selectClipProposals events durationSeconds limit includeRejected =
          (selectClipProposals events durationSeconds limit' includeRejected).take limit.toNat := by
  refine ⟨isRankedSelection_select h durationSeconds limit includeRejected, fun events' hperm => ?_,
    fun limit' hle => ?_⟩
  · rw [selectClipProposals_eq ((hperm.map _).nodup_iff.mp h), selectClipProposals_eq h]
    exact (Keyset.top_eq_of_perm (hasKey_proposalsOf h) (perm_proposalsOf hperm) _).symm
  · rw [selectClipProposals_eq h, selectClipProposals_eq h, Keyset.take_top,
      min_eq_left (Int.toNat_le_toNat hle)]

/-- A late made shot and an early pass. -/
theorem exists_isRankedSelection : ∃ events : List ClipEvent,
    events.map ClipEvent.reviewStatus = ["needs_review", "machine_only"] ∧
    IsRankedSelection events (some 60) 1 false (selectClipProposals events (some 60) 1 false) :=
  ⟨[⟨1, "pass", 2000, some (95 / 100), "needs_review", none, []⟩,
      ⟨2, "shot_made", 58500, some (78 / 100), "machine_only", none, []⟩], rfl,
    (isRankedSelection (by decide) (some 60) 1 false).1⟩

end Exact

/-! ### The route -/

variable {rows : List VideoEvent} {row : VideoEvent} {video : VideoOf δ}

/-- The rows of a video that wait for a review. -/
def waitingRows (rows : List VideoEvent) (video : VideoOf δ) : List VideoEvent :=
  rows.filter fun row => row.videoId = video.id &&
    (row.reviewStatus = .needsReview || row.reviewStatus = .machineOnly)

/-- The events of these rows. -/
def waitingEvents (rows : List VideoEvent) (video : VideoOf δ) : List ClipEvent :=
  (waitingRows rows video).map fun row => clipEventFromRow row video

/-- The proposals of the package for all of them. -/
def bestProposals (rows : List VideoEvent) (video : VideoOf δ) (limit : ℕ) : List ClipProposal :=
  buildClipProposals (waitingEvents rows video) video.durationSeconds limit false

/-- The key by which the rows are selected. -/
def VideoEvent.timeKey (row : VideoEvent) : ℤ ×ₗ ℤ := toLex (row.eventTimeMs, row.outputFrame)

/-- How many rows that wait are earlier than a row, or as early and returned before it. -/
def countEarlier (rows : List VideoEvent) (video : VideoOf δ) (row : VideoEvent) : ℕ :=
  Keyset.countBefore (Keyset.placed VideoEvent.timeKey VideoEvent.id (waitingRows rows video))
    (waitingRows rows video)
    (Keyset.placed VideoEvent.timeKey VideoEvent.id (waitingRows rows video) row)

/-- How many proposals are better than a proposal. -/
def countBetter (rows : List VideoEvent) (video : VideoOf δ) (p : ClipProposal) : ℕ :=
  Keyset.countBefore ClipProposal.rankKey
    (proposalsOf (waitingEvents rows video) video.durationSeconds false) p.rankKey

/-- Of the rows that wait, those with the best proposals are among the earliest. -/
def HasBestEarly (rows : List VideoEvent) (video : VideoOf δ) (limit : ℕ) : Prop :=
  ∀ row ∈ waitingRows rows video, ∀ p,
    (clipEventFromRow row video).proposal δ (ClipEvent.durationMs video.durationSeconds) false =
      some p →
    countBetter rows video p < limit → countEarlier rows video row < min (limit * 4) 400

section Selection

omit [Arithmetic δ]

theorem hasKey_waitingRows (h : (rows.map VideoEvent.id).Nodup) (video : VideoOf δ) :
    Keyset.HasKey VideoEvent.id (waitingRows rows video) :=
  h.sublist (List.filter_sublist.map _)

theorem timeKey_le_iff (r s : VideoEvent) : r.timeKey ≤ s.timeKey ↔ r.eventTimeMs < s.eventTimeMs ∨
    r.eventTimeMs = s.eventTimeMs ∧ r.outputFrame ≤ s.outputFrame :=
  Prod.Lex.toLex_le_toLex

/-- The rows that the route selects. -/
theorem clipProposalRows_eq (h : (rows.map VideoEvent.id).Nodup) (video : VideoOf δ) (limit : ℕ) :
    clipProposalRows rows video limit = Keyset.top
      (Keyset.placed VideoEvent.timeKey VideoEvent.id (waitingRows rows video))
      (min (limit * 4) 400) (waitingRows rows video) := by
  have hle : (fun r s : VideoEvent => r.eventTimeMs < s.eventTimeMs ||
      (r.eventTimeMs = s.eventTimeMs && r.outputFrame ≤ s.outputFrame)) =
        fun r s => decide (r.timeKey ≤ s.timeKey) := by
    funext r s
    rw [Bool.eq_iff_iff, decide_eq_true_iff, timeKey_le_iff]
    simp
  rw [Keyset.top,
    ← Keyset.mergeSort_eq_orderBy_placed VideoEvent.timeKey (hasKey_waitingRows h video),
    clipProposalRows, hle]
  rfl

theorem mem_clipProposalRows (h : (rows.map VideoEvent.id).Nodup) :
    row ∈ clipProposalRows rows video limit ↔
      row ∈ waitingRows rows video ∧ countEarlier rows video row < min (limit * 4) 400 := by
  rw [clipProposalRows_eq h, Keyset.mem_top (Keyset.hasKey_placed _ (hasKey_waitingRows h video))]
  rfl

end Selection

theorem createdAt_of_proposal (h : event.proposal δ duration includeRejected = some p) :
    p.createdAt = event.createdAt := by
  rw [ClipEvent.proposal, Option.ite_none_left_eq_some] at h
  obtain ⟨w, -, rfl⟩ := Option.map_eq_some_iff.mp h.2
  rfl

theorem map_id_clipEventFromRow (rows : List VideoEvent) (video : VideoOf δ) :
    (rows.map fun row => clipEventFromRow row video).map ClipEvent.id = rows.map VideoEvent.id :=
  List.map_map

theorem nodup_waitingEvents (h : (rows.map VideoEvent.id).Nodup) (video : VideoOf δ) :
    ((waitingEvents rows video).map ClipEvent.id).Nodup := by
  rw [waitingEvents, map_id_clipEventFromRow]
  exact hasKey_waitingRows h video

/-- **The route returns the best proposals of the rows that it selects.** -/
theorem listVideoClipProposals_eq (h : (rows.map VideoEvent.id).Nodup) (video : VideoOf δ)
    (limit : ℕ) :
    listVideoClipProposals rows video limit = Keyset.top ClipProposal.rankKey limit
      (proposalsOf ((clipProposalRows rows video limit).map fun row => clipEventFromRow row video)
        video.durationSeconds false) := by
  have hids : (((clipProposalRows rows video limit).map fun row =>
      clipEventFromRow row video).map ClipEvent.id).Nodup := by
    rw [map_id_clipEventFromRow, clipProposalRows_eq h]
    exact (((Keyset.orderBy_perm _ _).map _).nodup_iff.mpr (hasKey_waitingRows h video)).sublist
      ((Keyset.sublist_top _ _ _).map _)
  rw [listVideoClipProposals, buildClipProposals_eq hids, List.filter_eq_self]
  intro p hp
  obtain ⟨event, hevent, hproposal⟩ := mem_proposalsOf.mp (Keyset.mem_of_mem_top hp)
  obtain ⟨row, -, rfl⟩ := List.mem_map.mp hevent
  rw [createdAt_of_proposal hproposal]
  rfl

theorem mem_proposalsOf_map {durationSeconds : Option δ} :
    p ∈ proposalsOf (rows.map fun row => clipEventFromRow row video) durationSeconds
        includeRejected ↔
      ∃ row ∈ rows, (clipEventFromRow row video).proposal δ (ClipEvent.durationMs durationSeconds)
        includeRejected = some p := by
  simp only [mem_proposalsOf, List.mem_map, exists_exists_and_eq_and]

/-- The route returns the best proposals of the video as long as the route selects their rows. -/
theorem list_eq_best_iff (h : (rows.map VideoEvent.id).Nodup) (video : VideoOf δ) (limit : ℕ) :
    listVideoClipProposals rows video limit = bestProposals rows video limit ↔
      HasBestEarly rows video limit := by
  have hnodup := nodup_waitingEvents h video
  have hkey : Keyset.HasKey ClipProposal.rankKey
      (proposalsOf (waitingEvents rows video) video.durationSeconds false) :=
        hasKey_proposalsOf hnodup
  -- The table in the order of the selection, in which the selected rows stand first.
  obtain ⟨ordered, hordered⟩ : ∃ ordered, ordered = Keyset.orderBy
    (Keyset.placed VideoEvent.timeKey VideoEvent.id (waitingRows rows video))
      (waitingRows rows video) := ⟨_, rfl⟩
  have hrows : ordered.Perm (waitingRows rows video) := hordered ▸ Keyset.orderBy_perm _ _
  have hperm : (proposalsOf (ordered.map fun row => clipEventFromRow row video)
      video.durationSeconds false).Perm
        (proposalsOf (waitingEvents rows video) video.durationSeconds false) :=
    perm_proposalsOf (hrows.map _)
  have hselected : (clipProposalRows rows video limit).Sublist ordered := by
    rw [clipProposalRows_eq h, hordered]
    exact Keyset.sublist_top _ _ _
  have hsublist : (proposalsOf ((clipProposalRows rows video limit).map fun row =>
      clipEventFromRow row video) video.durationSeconds false).Sublist
        (proposalsOf (ordered.map fun row => clipEventFromRow row video) video.durationSeconds
          false) :=
    (hselected.map _).filterMap _
  rw [listVideoClipProposals_eq h, bestProposals, buildClipProposals_eq hnodup,
    Keyset.top_eq_of_perm hkey hperm.symm,
    Keyset.top_eq_top_iff ((hperm.map _).nodup_iff.mpr hkey) hsublist]
  constructor
  · intro hbest row hrow p hproposal hcount
    have hmem := hbest p (mem_proposalsOf_map.mpr ⟨row, hrows.mem_iff.mpr hrow, hproposal⟩)
      ((Keyset.countBefore_eq_of_perm hperm _).trans_lt hcount)
    obtain ⟨row', hrow', hproposal'⟩ := mem_proposalsOf_map.mp hmem
    have hselected' := (mem_clipProposalRows h).mp hrow'
    have hid : row'.id = row.id :=
      (sourceEventId_of_proposal hproposal').symm.trans (sourceEventId_of_proposal hproposal)
    rw [← List.inj_on_of_nodup_map (hasKey_waitingRows h video) hselected'.1 hrow hid]
    exact hselected'.2
  · intro hbest p hp hcount
    obtain ⟨row, hrow, hproposal⟩ := mem_proposalsOf_map.mp hp
    have hwaits := hrows.mem_iff.mp hrow
    have hearly := hbest row hwaits p hproposal
      ((Keyset.countBefore_eq_of_perm hperm _).symm.trans_lt hcount)
    exact mem_proposalsOf_map.mpr ⟨row, (mem_clipProposalRows h).mpr ⟨hwaits, hearly⟩, hproposal⟩

/-- **When the route returns the best proposals of the video**, and those for a smaller limit are
then the first of those for a larger one. -/
theorem listVideoClipProposals_iff (h : (rows.map VideoEvent.id).Nodup) (video : Video) :
    (∀ limit, listVideoClipProposals rows video limit = bestProposals rows video limit ↔
      HasBestEarly rows video limit) ∧
    ∀ limit limit', limit ≤ limit' → HasBestEarly rows video limit →
      HasBestEarly rows video limit' →
      listVideoClipProposals rows video limit =
        (listVideoClipProposals rows video limit').take limit := by
  refine ⟨list_eq_best_iff h video, fun limit limit' hle hbest hbest' => ?_⟩
  rw [(list_eq_best_iff h video limit).mpr hbest, (list_eq_best_iff h video limit').mpr hbest',
    bestProposals, bestProposals, buildClipProposals_eq (nodup_waitingEvents h video),
    buildClipProposals_eq (nodup_waitingEvents h video), Keyset.take_top, min_eq_left hle]

/-- The condition, row by row. -/
theorem hasBestEarly_of_all (h : (waitingRows rows video).all (fun row =>
    ((clipEventFromRow row video).proposal δ (ClipEvent.durationMs video.durationSeconds) false).all
      fun p => limit ≤ countBetter rows video p ||
        countEarlier rows video row < min (limit * 4) 400) = true) :
    HasBestEarly rows video limit := by
  intro row hrow p hproposal hcount
  have hrow' := List.all_eq_true.mp h row hrow
  rw [hproposal, Option.all_some, Bool.or_eq_true, decide_eq_true_iff, decide_eq_true_iff] at hrow'
  exact hrow'.resolve_left (not_le.mpr hcount)

/-- A pass. -/
def samplePass (id : EventId) (eventTimeMs : ℤ) : VideoEvent :=
  { sampleEvent .pass eventTimeMs none [] with id := id }

/-- A made shot. -/
def sampleShot (eventTimeMs : ℤ) : VideoEvent :=
  { sampleEvent .shotMade eventTimeMs none [] with id := 5 }

/-- A made shot between five passes. -/
def earlyShot : List VideoEvent :=
  [samplePass 1 1000, sampleShot 2000, samplePass 2 3000, samplePass 3 4000, samplePass 4 5000,
    samplePass 6 6000]

/-- For one clip the route does not look at the last two passes, and finds the made shot. -/
theorem exists_list_eq_best : ∃ (rows : List VideoEvent) (video : Video) (limit : ℕ),
    limit * 4 < (waitingRows rows video).length ∧ limit ≤ 100 ∧
      listVideoClipProposals rows video limit = bestProposals rows video limit :=
  ⟨earlyShot, sampleVideo 30, 1, by decide, by decide,
    ((listVideoClipProposals_iff (by decide) (sampleVideo 30)).1 1).mpr
      (hasBestEarly_of_all (by decide +kernel))⟩

/-- Four passes, and a made shot behind them. -/
def lateShot : List VideoEvent :=
  [samplePass 1 1000, samplePass 2 2000, samplePass 3 3000, samplePass 4 4000, sampleShot 12000]

/-- **The best clip is left out.** For one clip the route looks at the passes only. -/
theorem exists_not_best : ∃ (rows : List VideoEvent) (video : Video) (limit : ℕ),
    (rows.map VideoEvent.id).Nodup ∧ 1 ≤ limit ∧ limit ≤ 100 ∧
      listVideoClipProposals rows video limit ≠ bestProposals rows video limit := by
  refine ⟨lateShot, sampleVideo 30, 1, by decide, le_refl 1, by decide, fun heq => ?_⟩
  have hbest := (list_eq_best_iff (by decide) (sampleVideo 30) 1).mp heq
  have hbetter : ((clipEventFromRow (sampleShot 12000) (sampleVideo 30)).proposal Duration
      (ClipEvent.durationMs (sampleVideo 30).durationSeconds) false).any
        (fun p => countBetter lateShot (sampleVideo 30) p < 1) = true := by
    decide +kernel
  obtain ⟨p, hp, hcount⟩ := (Option.any_eq_true _ _).mp hbetter
  have hwaits : sampleShot 12000 ∈ waitingRows lateShot (sampleVideo 30) := by
    simp [waitingRows, lateShot, sampleShot, samplePass, sampleEvent, sampleVideo, sampleVideoOf]
  have hearly := hbest (sampleShot 12000) hwaits p hp (of_decide_eq_true hcount)
  exact absurd hearly (by decide +kernel)

end NextBallUp.Events
